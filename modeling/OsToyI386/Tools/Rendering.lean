import OsToyI386.Tools.Console

/-!
# What the format language means

A format is a list of tokens, and a list of tokens with its arguments is a text. The loops of
`kernel_itoa` and `kernel_vsprintf` write that text and nothing else, unless a `%x` meets a
negative number.
-/

namespace OsToyI386

open Lib

/-- A part of a format string. -/
inductive Token
  | lit (c : BitVec 8)
  /-- `%s`. -/
  | str
  /-- `%d`. -/
  | dec
  /-- `%x`. -/
  | hex
  /-- `%c`. -/
  | chr
  /-- `%%`. -/
  | percent
  /-- `%` and any other character. -/
  | unknown
  deriving DecidableEq

/-- The token that a `%` and the character behind it make. -/
def directive (c : BitVec 8) : Token :=
  if c = ch 's' then .str
  else if c = ch 'd' then .dec
  else if c = ch 'x' then .hex
  else if c = ch 'c' then .chr
  else if c = ch '%' then .percent
  else .unknown

/-- The tokens of a format, from left to right. A `%` at the end is none. -/
def tokens : List (BitVec 8) → List Token
  | [] => []
  | [c] => if c = ch '%' then [] else [.lit c]
  | c :: d :: fmt => if c = ch '%' then directive d :: tokens fmt else .lit c :: tokens (d :: fmt)

/-- The characters `0` to `9` and `A` to `F`. -/
def digitChar (d : Nat) : BitVec 8 :=
  BitVec.ofNat 8 (if d < 10 then 0x30 + d else 0x41 + (d - 10))

/-- The signed decimal numeral. -/
def decimalNumeral (z : Int) : List (BitVec 8) :=
  (if z < 0 then [ch '-'] else []) ++ (numeral 10 z.natAbs).map digitChar

/-- The unsigned hexadecimal numeral, in upper case. -/
def hexNumeral (n : Nat) : List (BitVec 8) := (numeral 16 n).map digitChar

/-- Each directive that takes an argument has one of its type. -/
def Typed : List Token → List Arg → Prop
  | [], _ => True
  | .lit _ :: ts, args | .percent :: ts, args | .unknown :: ts, args => Typed ts args
  | .str :: ts, .str _ :: args => Typed ts args
  | .dec :: ts, .int _ :: args | .hex :: ts, .int _ :: args | .chr :: ts, .int _ :: args =>
    Typed ts args
  | _, _ => False

/-- The arguments of the `%x`. -/
def hexArgs : List Token → List Arg → List (BitVec 32)
  | .lit _ :: ts, args | .percent :: ts, args | .unknown :: ts, args => hexArgs ts args
  | .hex :: ts, .int v :: args => v :: hexArgs ts args
  | .str :: ts, _ :: args | .dec :: ts, _ :: args | .chr :: ts, _ :: args => hexArgs ts args
  | _, _ => []

/-- No `%x` has a negative argument. -/
def Unsigned (ts : List Token) (args : List Arg) : Prop := ∀ v ∈ hexArgs ts args, 0 ≤ v.toInt

instance (ts : List Token) (args : List Arg) : Decidable (Unsigned ts args) :=
  inferInstanceAs (Decidable (∀ v ∈ hexArgs ts args, 0 ≤ v.toInt))

/-- The text that tokens and their arguments make. -/
def render : List Token → List Arg → List (BitVec 8)
  | .lit c :: ts, args => c :: render ts args
  | .percent :: ts, args => ch '%' :: render ts args
  | .unknown :: ts, args => ch '?' :: render ts args
  | .str :: ts, .str s :: args => s.bytes ++ render ts args
  | .dec :: ts, .int v :: args => decimalNumeral v.toInt ++ render ts args
  | .hex :: ts, .int v :: args => hexNumeral v.toNat ++ render ts args
  | .chr :: ts, .int v :: args => v.setWidth 8 :: render ts args
  | _, _ => []

/-- `b'` is `b` with the characters put in from cell `p` on; nothing else was written. -/
structure CharBuf.Wrote (b b' : CharBuf) (p : Nat) (xs : List (BitVec 8)) : Prop where
  bytes : b'.bytes = write b.bytes p xs
  inside : ∀ w ∈ b'.writes, w ∈ b.writes ∨ (p ≤ w ∧ w < p + xs.length)

namespace CharBuf.Wrote

variable {b b' b'' : CharBuf} {p : Nat} {x y : BitVec 8} {xs ys : List (BitVec 8)}

lemma nil (b : CharBuf) (p : Nat) : Wrote b b p [] := ⟨rfl, fun _ hw => Or.inl hw⟩

lemma put (b : CharBuf) (p : Nat) (x : BitVec 8) : Wrote b (b.put p x) p [x] := by
  refine ⟨rfl, fun w hw => ?_⟩
  simp only [CharBuf.put, List.mem_append, List.mem_singleton] at hw
  refine hw.imp_right fun he => ?_
  simp [he]

lemma append (h : Wrote b b' p xs) (h' : Wrote b' b'' (p + xs.length) ys) :
    Wrote b b'' p (xs ++ ys) := by
  refine ⟨by rw [h'.bytes, h.bytes, write_append], fun w hw => ?_⟩
  rw [List.length_append]
  rcases h'.inside w hw with hold | hnew
  · exact (h.inside w hold).imp_right fun hin => by omega
  · exact Or.inr (by omega)

lemma cons (h' : Wrote (b.put p x) b' (p + 1) xs) : Wrote b b' p (x :: xs) := (put b p x).append h'

/-- The two ends have changed places; what lies between them is still to be reversed. -/
lemma swap (h : Wrote b b' p (x :: (xs ++ [y]))) :
    Wrote (((b.put p y).put (p + xs.length + 1) x))
      ((b'.put p y).put (p + xs.length + 1) x) (p + 1) xs ∧
    (b'.bytes p = x ∧ b'.bytes (p + xs.length + 1) = y) := by
  have hlen : (x :: (xs ++ [y])).length = xs.length + 2 := by simp
  have hfirst : b'.bytes p = x := by
    rw [h.bytes]
    exact write_add 0 (by simp)
  have hlast : b'.bytes (p + xs.length + 1) = y := by
    rw [h.bytes, Nat.add_assoc, write_add (xs.length + 1) (by simp)]
    simp
  refine ⟨⟨?_, fun w hw => ?_⟩, hfirst, hlast⟩
  · have hinner : b'.bytes = Function.update
        (write (Function.update b.bytes p x) (p + 1) xs) (p + xs.length + 1) y := by
      rw [h.bytes, write, write_snoc]
      congr 1
      omega
    simp only [CharBuf.put]
    rw [write_update (Or.inr (by omega)), write_update (Or.inl (by omega)), hinner,
      write_update (Or.inl (by omega))]
    funext a
    by_cases ha : a = p + xs.length + 1
    · subst ha
      rw [Function.update_self, Function.update_self]
    · by_cases hap : a = p
      · subst hap
        rw [Function.update_of_ne ha, Function.update_self, Function.update_of_ne ha,
          Function.update_self]
      · simp only [Function.update_of_ne ha, Function.update_of_ne hap]
  · simp only [CharBuf.put, List.mem_append, List.mem_singleton] at hw ⊢
    rcases hw with (hw | rfl) | rfl
    · rcases h.inside w hw with hold | ⟨hlo, hhi⟩
      · exact Or.inl (Or.inl (Or.inl hold))
      · by_cases hp : w = p
        · exact Or.inl (Or.inl (Or.inr hp))
        · by_cases hq : w = p + xs.length + 1
          · exact Or.inl (Or.inr hq)
          · exact Or.inr (by omega)
    · exact Or.inl (Or.inl (Or.inr rfl))
    · exact Or.inl (Or.inr rfl)

lemma unswap (h : Wrote ((b.put p y).put (p + xs.length + 1) x) b' (p + 1) xs) :
    Wrote b b' p (y :: (xs ++ [x])) := by
  refine ⟨?_, fun w hw => ?_⟩
  · rw [h.bytes, write, write_snoc]
    simp only [CharBuf.put]
    rw [write_update (Or.inr (by omega))]
    congr 1
    omega
  · have hlen : (y :: (xs ++ [x])).length = xs.length + 2 := by simp
    rcases h.inside w hw with hold | hin
    · simp only [CharBuf.put, List.mem_append, List.mem_singleton] at hold
      rcases hold with (hold | rfl) | rfl
      · exact Or.inl hold
      · exact Or.inr (by omega)
      · exact Or.inr (by omega)
    · exact Or.inr (by omega)

lemma reverse (h : Wrote b b' p xs) {fuel : Nat} (hfuel : xs.length ≤ 2 * fuel + 1) :
    Wrote b (reverseLoop fuel p (p + xs.length - 1) b') p xs.reverse := by
  induction xs using List.bidirectionalRec generalizing b b' p fuel with
  | nil =>
    have hstop : reverseLoop fuel p (p + 0 - 1) b' = b' := by
      cases fuel with
      | zero => rfl
      | succ fuel => rw [reverseLoop, if_neg (by omega)]
    rw [List.reverse_nil, List.length_nil, hstop]
    exact h
  | singleton x =>
    have hstop : reverseLoop fuel p (p + 1 - 1) b' = b' := by
      cases fuel with
      | zero => rfl
      | succ fuel => rw [reverseLoop, if_neg (by omega)]
    rw [List.reverse_singleton, List.length_singleton, hstop]
    exact h
  | cons_append x xs y ih =>
    have hlen : (x :: (xs ++ [y])).length = xs.length + 2 := by simp
    rw [hlen] at hfuel
    obtain ⟨n, rfl⟩ := Nat.exists_eq_succ_of_ne_zero (by omega : fuel ≠ 0)
    obtain ⟨hinner, hfirst, hlast⟩ := h.swap
    have hstop : p + (x :: (xs ++ [y])).length - 1 = p + xs.length + 1 := by omega
    rw [hstop, reverseLoop, if_pos (by omega), hfirst, hlast]
    have hfuel' : xs.length ≤ 2 * n + 1 := by omega
    have hrest := ih hinner hfuel'
    have hback : p + 1 + xs.length - 1 = p + xs.length + 1 - 1 := by omega
    rw [hback] at hrest
    have hrev : (x :: (xs ++ [y])).reverse = y :: (xs.reverse ++ [x]) := by simp
    rw [hrev]
    refine unswap ?_
    rw [List.length_reverse]
    exact hrest

end CharBuf.Wrote

/-! ### `kernel_itoa` -/

lemma num2ch_natCast {d : Nat} (h : d < 16) : num2ch d = digitChar d := by
  interval_cases d <;> rfl

lemma digit_index (num : Int) (base : Nat) :
    (if num > 0 then num.tmod base else -(num.tmod base)) = (num.natAbs % base : Nat) := by
  have habs : (num.tmod base).natAbs = num.natAbs % base := by simp
  split
  · rename_i hpos
    have := Int.tmod_nonneg (base : Int) hpos.le
    omega
  · rename_i hneg
    have hopp : 0 ≤ (-num).tmod base := Int.tmod_nonneg (base : Int) (by omega)
    rw [Int.neg_tmod] at hopp
    omega

lemma digitLoop_spec {fuel base : Nat} {num : Int} (hbase : 2 ≤ base) (hbase' : base ≤ 16)
    (hfuel : 0 < fuel) (hnum : num.natAbs < base ^ fuel) (p : Nat) (b : CharBuf) :
    ∃ b', digitLoop fuel num base p b = (p + (numeral base num.natAbs).length, b') ∧
      b.Wrote b' p ((numeral base num.natAbs).reverse.map digitChar) := by
  induction fuel generalizing num p b with
  | zero => omega
  | succ fuel ih =>
    have hdigit : num2ch (if num > 0 then num.tmod base else -(num.tmod base)) =
        digitChar (num.natAbs % base) := by
      rw [digit_index, num2ch_natCast]
      exact (Nat.mod_lt _ (by omega)).trans_le hbase'
    have hquot : (num.tdiv base).natAbs = num.natAbs / base := by
      rw [Int.natAbs_tdiv, Int.natAbs_natCast]
      rfl
    rw [digitLoop, hdigit]
    by_cases hlt : num.natAbs < base
    · have hzero : num.tdiv base = 0 := by
        rw [← Int.natAbs_eq_zero, hquot, Nat.div_eq_of_lt hlt]
      rw [numeral_of_lt hlt, if_neg (by simp [hzero]), Nat.mod_eq_of_lt hlt]
      exact ⟨_, rfl, .put b p _⟩
    · have hle : base ≤ num.natAbs := by omega
      have hpos : num.tdiv base ≠ 0 := by
        intro hzero
        have := Nat.div_pos hle (by omega)
        rw [← Int.natAbs_eq_zero, hquot] at hzero
        omega
      have hfuel' : 0 < fuel := by
        by_contra hno
        obtain rfl : fuel = 0 := by omega
        rw [Nat.zero_add, Nat.pow_one] at hnum
        omega
      have hquot' : (num.tdiv base).natAbs < base ^ fuel := by
        rw [hquot, Nat.div_lt_iff_lt_mul (by omega), ← Nat.pow_succ]
        exact hnum
      obtain ⟨b', hloop, hwrote⟩ := ih hfuel' hquot' (p + 1)
        (b.put p (digitChar (num.natAbs % base)))
      rw [if_pos hpos, hloop, hquot, numeral_of_le hbase hle]
      refine ⟨b', ?_, ?_⟩
      · rw [List.length_append, List.length_singleton]
        congr 1
        omega
      · rw [List.reverse_append, List.reverse_singleton, List.singleton_append, List.map_cons,
          ← hquot]
        exact hwrote.cons

/-- The text of `kernel_itoa`: the sign is written in base 10 only. -/
def itoaText (num : Int) (base : Nat) : List (BitVec 8) :=
  (if num < 0 ∧ base = 10 then [ch '-'] else []) ++ (numeral base num.natAbs).map digitChar

/-- When `kernel_itoa` returns. -/
def ItoaReturns (num : Int) (base : Nat) : Prop :=
  (base = 2 ∨ base = 10 ∨ base = 16) ∧ ¬ (num < 0 ∧ base = 16)

lemma kernelItoa_exec {num : Int} {base : Nat} (h : ItoaReturns num base)
    (hnum : num.natAbs ≤ 2 ^ 31) (buf : Nat) (b : CharBuf) (s : Console) :
    ∃ b', (kernelItoa buf num base b).exec s =
        (.ok (buf + (itoaText num base).length, b'), s) ∧
      b.Wrote b' buf (itoaText num base) := by
  have hbase : 2 ≤ base ∧ base ≤ 16 := by
    rcases h.1 with rfl | rfl | rfl <;> omega
  have hpow : num.natAbs < base ^ 32 := by
    have := Nat.pow_le_pow_left hbase.1 32
    omega
  have hlen : (numeral base num.natAbs).length ≤ 32 :=
    length_numeral_le hbase.1 (by decide) hpow
  -- the sign
  obtain ⟨flag, b₁, hsign, hb₁, hflag⟩ : ∃ flag b₁,
      b.Wrote b₁ buf (if num < 0 ∧ base = 10 then [ch '-'] else []) ∧
      b₁ = (if num < 0 ∧ base = 10 then b.put buf (ch '-') else b) ∧
      flag = (if num < 0 ∧ base = 10 then 1 else 0) := by
    refine ⟨_, _, ?_, rfl, rfl⟩
    split
    · exact .put b buf _
    · exact .nil b buf
  have hflag' : (if num < 0 ∧ base = 10 then [ch '-'] else []).length = flag := by
    rw [hflag]
    split <;> rfl
  -- the digits
  obtain ⟨b₂, hloop, hdigits⟩ := digitLoop_spec hbase.1 hbase.2 (by decide : 0 < 32) hpow
    (buf + flag) b₁
  have hfuel : ((numeral base num.natAbs).reverse.map digitChar).length ≤ 2 * 32 + 1 := by
    simp only [List.length_map, List.length_reverse]
    omega
  have hrev := hdigits.reverse hfuel
  rw [List.map_reverse, List.reverse_reverse, List.length_reverse, List.length_map] at hrev
  refine ⟨_, ?_, hsign.append (hflag' ▸ hrev)⟩
  have hten : ((base : Int) = 10) ↔ base = 10 := by omega
  have hbad : ¬ ((base : Int) ≠ 2 ∧ (base : Int) ≠ 10 ∧ (base : Int) ≠ 16) := by
    rcases h.1 with rfl | rfl | rfl <;> simp
  have hneg : ¬ (num < 0 ∧ (base : Int) = 16) := by
    have := h.2
    omega
  rw [kernelItoa, if_neg hbad, if_neg hneg]
  simp only [hten, ← hflag, ← hb₁, hloop]
  rw [itoaText, List.length_append, hflag', List.length_map, ← Nat.add_assoc]
  rfl

lemma kernelItoa_spins {num : Int} {base : Nat} (h : ¬ ItoaReturns num base) (buf : Nat)
    (b : CharBuf) (s : Console) :
    ∃ msg, (kernelItoa buf num base b).exec s = (.error .spin, (s.printed msg).ended) := by
  by_cases hbad : (base : Int) ≠ 2 ∧ (base : Int) ≠ 10 ∧ (base : Int) ≠ 16
  · refine ⟨lit "kernel_itoa: base is a invalid value", ?_⟩
    rw [kernelItoa, if_pos hbad, Code.exec_bind_ok (logPrintln_exec _)]
    rfl
  · have hneg : num < 0 ∧ (base : Int) = 16 := by
      by_contra hno
      exact h ⟨by omega, by omega⟩
    refine ⟨lit "kernel_itoa: base16 when num < 0", ?_⟩
    rw [kernelItoa, if_neg hbad, if_pos hneg, Code.exec_bind_ok (logPrintln_exec _)]
    rfl

/-! ### `kernel_vsprintf` -/

section Vsprintf

variable {fmt : List (BitVec 8)} {ts : List Token} {args : List Arg} {c d : BitVec 8}

lemma copyString_spec (xs : List (BitVec 8)) (current : Nat) (b : CharBuf) :
    ∃ b', copyString xs.length xs current b = (current + xs.length, b') ∧
      b.Wrote b' current xs := by
  induction xs generalizing current b with
  | nil => exact ⟨b, rfl, .nil b current⟩
  | cons x xs ih =>
    obtain ⟨b', hcopy, hwrote⟩ := ih (current + 1) (b.put current x)
    refine ⟨b', ?_, hwrote.cons⟩
    rw [List.length_cons, copyString, List.tail_cons, List.headD_cons, hcopy]
    congr 1
    omega

lemma CString.strlen_toNat (str : CString) : str.strlen.toNat = str.bytes.length := by
  rw [strlen, BitVec.toNat_ofNat, Nat.mod_eq_of_lt str.fits]

lemma itoaText_dec (z : Int) : itoaText z 10 = decimalNumeral z := by
  simp [itoaText, decimalNumeral]

lemma itoaText_hex {v : BitVec 32} (h : 0 ≤ v.toInt) :
    itoaText v.toInt 16 = hexNumeral v.toNat := by
  have habs : v.toInt.natAbs = v.toNat := by
    have hlt := v.isLt
    have hcond := BitVec.toInt_eq_toNat_cond v
    split at hcond <;> omega
  simp [itoaText, hexNumeral, habs]

lemma natAbs_toInt_le (v : BitVec 32) : v.toInt.natAbs ≤ 2 ^ 31 := by
  have := BitVec.le_toInt v
  have := BitVec.toInt_lt (x := v)
  omega

lemma directive_hex (h : directive d = .hex) : d = ch 'x' := by
  unfold directive at h
  split_ifs at h
  assumption

lemma vaStr_exec (str : CString) (args : List Arg) (s : Console) :
    (vaStr (.str str :: args)).exec s = (.ok (str, args), s) := rfl

lemma vaInt_exec (v : BitVec 32) (args : List Arg) (s : Console) :
    (vaInt (.int v :: args)).exec s = (.ok (v, args), s) := rfl

/-- In the state `READ_FMT` the character `d` writes `text`, and leaves the arguments `args'`. -/
def Directs (d : BitVec 8) (args : List Arg) (text : List (BitVec 8)) (args' : List Arg) : Prop :=
  ∀ fmt current b s, ∃ b', b.Wrote b' current text ∧
    (vsprintfLoop (d :: fmt) .readFmt args current b).exec s =
      (vsprintfLoop fmt .normal args' (current + text.length) b').exec s

lemma directs_str (str : CString) (args : List Arg) :
    Directs (ch 's') (.str str :: args) str.bytes args := by
  intro fmt current b s
  obtain ⟨b', hcopy, hwrote⟩ := copyString_spec str.bytes current b
  refine ⟨b', hwrote, ?_⟩
  rw [vsprintfLoop, if_pos rfl, Code.exec_bind_ok (vaStr_exec str args s)]
  simp only [CString.strlen_toNat, hcopy]

lemma directs_dec (v : BitVec 32) (args : List Arg) :
    Directs (ch 'd') (.int v :: args) (decimalNumeral v.toInt) args := by
  intro fmt current b s
  have hret : ItoaReturns v.toInt 10 := ⟨by simp, by simp⟩
  obtain ⟨b', hitoa, hwrote⟩ := kernelItoa_exec hret (natAbs_toInt_le v) current b s
  rw [itoaText_dec] at hitoa hwrote
  refine ⟨b', hwrote, ?_⟩
  rw [vsprintfLoop, if_neg (by decide), if_pos rfl, Code.exec_bind_ok (vaInt_exec v args s)]
  exact Code.exec_bind_ok hitoa

lemma directs_hex {v : BitVec 32} (hv : 0 ≤ v.toInt) (args : List Arg) :
    Directs (ch 'x') (.int v :: args) (hexNumeral v.toNat) args := by
  intro fmt current b s
  have hret : ItoaReturns v.toInt 16 := ⟨by simp, by omega⟩
  obtain ⟨b', hitoa, hwrote⟩ := kernelItoa_exec hret (natAbs_toInt_le v) current b s
  rw [itoaText_hex hv] at hitoa hwrote
  refine ⟨b', hwrote, ?_⟩
  rw [vsprintfLoop, if_neg (by decide), if_neg (by decide), if_pos rfl,
    Code.exec_bind_ok (vaInt_exec v args s)]
  exact Code.exec_bind_ok hitoa

lemma directs_chr (v : BitVec 32) (args : List Arg) :
    Directs (ch 'c') (.int v :: args) [v.setWidth 8] args := by
  intro fmt current b s
  refine ⟨_, .put b current _, ?_⟩
  rw [vsprintfLoop, if_neg (by decide), if_neg (by decide), if_neg (by decide), if_pos rfl,
    Code.exec_bind_ok (vaInt_exec v args s)]
  rfl

lemma directs_percent (args : List Arg) : Directs (ch '%') args [ch '%'] args := by
  intro fmt current b s
  refine ⟨_, .put b current _, ?_⟩
  rw [vsprintfLoop, if_neg (by decide), if_neg (by decide), if_neg (by decide),
    if_neg (by decide), if_pos rfl]
  rfl

lemma directs_unknown (hs : d ≠ ch 's') (hd : d ≠ ch 'd') (hhex : d ≠ ch 'x') (hc : d ≠ ch 'c')
    (hp : d ≠ ch '%') (args : List Arg) : Directs d args [ch '?'] args := by
  intro fmt current b s
  refine ⟨_, .put b current _, ?_⟩
  rw [vsprintfLoop, if_neg hs, if_neg hd, if_neg hhex, if_neg hc, if_neg hp]
  rfl

/-- A directive whose argument is there writes its text, in front of what the rest writes. -/
lemma readFmt_exec (ht : Typed (directive d :: ts) args)
    (hx : ∀ v args', directive d = .hex → args = .int v :: args' → 0 ≤ v.toInt) :
    ∃ text args', Typed ts args' ∧ (Unsigned (directive d :: ts) args ↔ Unsigned ts args') ∧
      render (directive d :: ts) args = text ++ render ts args' ∧ Directs d args text args' := by
  unfold directive at ht hx ⊢
  split_ifs at ht hx ⊢ with hs hd hhex hc hp
  · subst hs
    match args, ht with
    | .str str :: args, ht => exact ⟨_, args, ht, Iff.rfl, rfl, directs_str str args⟩
  · subst hd
    match args, ht with
    | .int v :: args, ht => exact ⟨_, args, ht, Iff.rfl, rfl, directs_dec v args⟩
  · subst hhex
    match args, ht with
    | .int v :: args, ht =>
      have hv : 0 ≤ v.toInt := hx v args rfl rfl
      have hrest : Unsigned (.hex :: ts) (.int v :: args) ↔ Unsigned ts args := by
        simp [Unsigned, hexArgs, hv]
      exact ⟨_, args, ht, hrest, rfl, directs_hex hv args⟩
  · subst hc
    match args, ht with
    | .int v :: args, ht => exact ⟨_, args, ht, Iff.rfl, rfl, directs_chr v args⟩
  · subst hp
    exact ⟨_, args, ht, Iff.rfl, rfl, directs_percent args⟩
  · exact ⟨_, args, ht, Iff.rfl, rfl, directs_unknown hs hd hhex hc hp args⟩

lemma Unsigned.head {t : Token} (hx : Unsigned (t :: ts) args) :
    ∀ v args', t = .hex → args = .int v :: args' → 0 ≤ v.toInt := by
  rintro v args' rfl rfl
  exact hx v List.mem_cons_self

lemma vsprintfLoop_exec (ht : Typed (tokens fmt) args) (hx : Unsigned (tokens fmt) args)
    (current : Nat) (b : CharBuf) (s : Console) :
    ∃ b', (vsprintfLoop fmt .normal args current b).exec s =
        (.ok (current + (render (tokens fmt) args).length, b'), s) ∧
      b.Wrote b' current (render (tokens fmt) args) := by
  induction fmt using tokens.induct generalizing args current b with
  | case1 => exact ⟨b, rfl, .nil b current⟩
  | case2 =>
    refine ⟨b, ?_, ?_⟩
    · rw [vsprintfLoop, if_pos rfl]
      rfl
    · exact .nil b current
  | case3 c hc =>
    have htok : tokens [c] = [.lit c] := by rw [tokens, if_neg hc]
    rw [htok, vsprintfLoop, if_neg hc]
    exact ⟨_, rfl, .put b current c⟩
  | case4 d fmt ih =>
    have htok : tokens (ch '%' :: d :: fmt) = directive d :: tokens fmt := by
      rw [tokens, if_pos rfl]
    rw [htok] at ht hx ⊢
    obtain ⟨text, args', ht', hx', hrender, hstep⟩ := readFmt_exec ht hx.head
    obtain ⟨b₁, hwrote₁, hexec₁⟩ := hstep fmt current b s
    obtain ⟨b₂, hexec₂, hwrote₂⟩ := ih ht' (hx'.mp hx) (current + text.length) b₁
    refine ⟨b₂, ?_, ?_⟩
    · rw [vsprintfLoop, if_pos rfl, hexec₁, hexec₂, hrender, List.length_append, Nat.add_assoc]
    · rw [hrender]
      exact hwrote₁.append hwrote₂
  | case5 c d fmt hc ih =>
    have htok : tokens (c :: d :: fmt) = .lit c :: tokens (d :: fmt) := by
      rw [tokens, if_neg hc]
    rw [htok] at ht hx ⊢
    obtain ⟨b₂, hexec₂, hwrote₂⟩ := ih ht hx (current + 1) (b.put current c)
    refine ⟨b₂, ?_, hwrote₂.cons⟩
    rw [vsprintfLoop, if_neg hc, hexec₂, render, List.length_cons]
    congr 3
    omega

lemma kernelVsprintf_exec {fmt : CString} (ht : Typed (tokens fmt.bytes) args)
    (hx : Unsigned (tokens fmt.bytes) args) (buf : Nat) (b : CharBuf) (s : Console) :
    ∃ b', (kernelVsprintf buf fmt args b).exec s =
        (.ok (buf + (render (tokens fmt.bytes) args).length, b'), s) ∧
      b.Wrote b' buf (render (tokens fmt.bytes) args ++ [0#8]) ∧
      buf + (render (tokens fmt.bytes) args).length ∈ b'.writes := by
  obtain ⟨b', hloop, hwrote⟩ := vsprintfLoop_exec ht hx buf b s
  refine ⟨_, ?_, hwrote.append (.put b' _ 0#8), ?_⟩
  · rw [kernelVsprintf, Code.exec_bind_ok hloop]
    rfl
  · simp [CharBuf.put]

lemma vsprintfLoop_spins (ht : Typed (tokens fmt) args) (hx : ¬ Unsigned (tokens fmt) args)
    (current : Nat) (b : CharBuf) (s : Console) :
    ∃ msg, (vsprintfLoop fmt .normal args current b).exec s =
      (.error .spin, (s.printed msg).ended) := by
  induction fmt using tokens.induct generalizing args current b with
  | case1 => exact absurd (by simp [Unsigned, tokens, hexArgs]) hx
  | case2 => exact absurd (by simp [Unsigned, tokens, hexArgs]) hx
  | case3 c hc => exact absurd (by simp [Unsigned, tokens, hexArgs, hc]) hx
  | case4 d fmt ih =>
    have htok : tokens (ch '%' :: d :: fmt) = directive d :: tokens fmt := by
      rw [tokens, if_pos rfl]
    rw [htok] at ht hx
    rw [vsprintfLoop, if_pos rfl]
    by_cases hhead : ∀ v args', directive d = .hex → args = .int v :: args' → 0 ≤ v.toInt
    · obtain ⟨text, args', ht', hx', -, hstep⟩ := readFmt_exec ht hhead
      obtain ⟨b₁, -, hexec₁⟩ := hstep fmt current b s
      obtain ⟨msg, hexec₂⟩ := ih ht' (fun hno => hx (hx'.mpr hno)) (current + text.length) b₁
      exact ⟨msg, hexec₁.trans hexec₂⟩
    · push Not at hhead
      obtain ⟨v, args', hhex, rfl, hneg⟩ := hhead
      obtain rfl := directive_hex hhex
      have hstuck : ¬ ItoaReturns v.toInt 16 := fun hret => hret.2 ⟨hneg, rfl⟩
      obtain ⟨msg, hspin⟩ := kernelItoa_spins hstuck current b s
      refine ⟨msg, ?_⟩
      rw [vsprintfLoop, if_neg (by decide), if_neg (by decide), if_pos rfl,
        Code.exec_bind_ok (vaInt_exec v args' s)]
      exact Code.exec_bind_error hspin
  | case5 c d fmt hc ih =>
    have htok : tokens (c :: d :: fmt) = .lit c :: tokens (d :: fmt) := by
      rw [tokens, if_neg hc]
    rw [htok] at ht hx
    obtain ⟨msg, hspin⟩ := ih ht hx (current + 1) (b.put current c)
    refine ⟨msg, ?_⟩
    rw [vsprintfLoop, if_neg hc, hspin]

lemma kernelVsprintf_spins {fmt : CString} (ht : Typed (tokens fmt.bytes) args)
    (hx : ¬ Unsigned (tokens fmt.bytes) args) (buf : Nat) (b : CharBuf) (s : Console) :
    ∃ msg, (kernelVsprintf buf fmt args b).exec s = (.error .spin, (s.printed msg).ended) := by
  obtain ⟨msg, hspin⟩ := vsprintfLoop_spins ht hx buf b s
  refine ⟨msg, ?_⟩
  rw [kernelVsprintf, Code.exec_bind_error hspin]

end Vsprintf

end OsToyI386
