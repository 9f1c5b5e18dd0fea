import OsToyI386.Tools.Rendering

/-!
# Numbers and formats as text

`kernel_vsprintf` writes the text that its format means, and nothing else. The text of
`kernel_itoa` determines the number, except that it has no sign in base 2.
-/

namespace OsToyI386

open Lib

/-- Whatever stands at `buf` and behind it, and whatever the port has seen: the rendering of
the format is written at `buf`, then a NUL, and no other cell is touched. -/
theorem vsprintf_writes_rendering (fmt : CString) (args : List Arg)
    (ht : Typed (tokens fmt.bytes) args) (hx : Unsigned (tokens fmt.bytes) args) (buf : Nat)
    (b : CharBuf) (s : Console) :
    let text := render (tokens fmt.bytes) args
    ∃ b', (kernelVsprintf buf fmt args b).exec s = (.ok (buf + text.length, b'), s) ∧
      slice b'.bytes buf (text.length + 1) = text ++ [0#8] ∧
      (∀ a, a < buf ∨ buf + text.length < a → b'.bytes a = b.bytes a) ∧
      ∀ w ∈ b'.writes, w ∈ b.writes ∨ (buf ≤ w ∧ w ≤ buf + text.length) := by
  intro text
  obtain ⟨b', hexec, hwrote, -⟩ := kernelVsprintf_exec ht hx buf b s
  have hlen : (render (tokens fmt.bytes) args ++ [0#8]).length = text.length + 1 := by simp [text]
  refine ⟨b', hexec, ?_, fun a ha => ?_, fun w hw => ?_⟩
  · rw [hwrote.bytes, ← hlen]
    exact slice_write
  · rw [hwrote.bytes]
    rcases ha with hlo | hhi
    · exact write_of_lt hlo
    · exact write_of_le (by omega)
  · exact (hwrote.inside w hw).imp_right fun hin => by omega

/-- A format of the tests in `init_main`, with their arguments. -/
def helloFormat : CString := ⟨lit "Hello %d %x %c 123", by decide, by decide⟩

def helloArgs : List Arg := [.int (BitVec.ofInt 32 (-12)), .int 3000#32, .int 0x43#32]

theorem vsprintf_writes_hello : ∃ b',
    (kernelVsprintf 0 helloFormat helloArgs ⟨fun _ => 0, []⟩).exec .idle = (.ok (19, b'), .idle) ∧
    slice b'.bytes 0 20 = lit "Hello -12 BB8 C 123" ++ [0#8] := by
  have htok : tokens helloFormat.bytes = (lit "Hello ").map .lit ++
      [.dec, .lit (ch ' '), .hex, .lit (ch ' '), .chr] ++ (lit " 123").map .lit := by
    decide +kernel
  have ht : Typed (tokens helloFormat.bytes) helloArgs := by
    rw [htok]
    trivial
  have hx : Unsigned (tokens helloFormat.bytes) helloArgs := by
    have hargs : hexArgs (tokens helloFormat.bytes) helloArgs = [3000#32] := by
      rw [htok]
      rfl
    intro v hv
    rw [hargs, List.mem_singleton] at hv
    rw [hv]
    decide
  have htext : render (tokens helloFormat.bytes) helloArgs = lit "Hello -12 BB8 C 123" := by
    decide +kernel
  have hspec := vsprintf_writes_rendering helloFormat helloArgs ht hx 0 ⟨fun _ => 0, []⟩ .idle
  rw [htext] at hspec
  obtain ⟨b', hexec, hslice, -⟩ := hspec
  exact ⟨b', hexec, hslice⟩

/-- The digit that a character is. -/
def charDigit (c : BitVec 8) : Nat := if c.toNat < 0x41 then c.toNat - 0x30 else c.toNat - 0x41 + 10

/-- A text read back as a number, `-` for the sign. -/
def readBack (base : Nat) : List (BitVec 8) → Int
  | [] => 0
  | c :: text =>
    if c = ch '-' then -(value base (text.map charDigit) : Nat)
    else (value base ((c :: text).map charDigit) : Nat)

lemma charDigit_digitChar {d : Nat} (h : d < 16) : charDigit (digitChar d) = d := by
  interval_cases d <;> rfl

lemma digitChar_ne_minus {d : Nat} (h : d < 16) : digitChar d ≠ ch '-' := by
  interval_cases d <;> decide

section ReadBack

variable {base : Nat} {num num' : Int}

lemma map_charDigit_numeral (hbase : 2 ≤ base) (hbase' : base ≤ 16) (n : Nat) :
    ((numeral base n).map digitChar).map charDigit = numeral base n := by
  rw [List.map_map]
  refine (List.map_congr_left fun d hd => ?_).trans (List.map_id _)
  exact charDigit_digitChar ((lt_of_mem_numeral hbase hd).trans_le hbase')

lemma readBack_digits (hbase : 2 ≤ base) (hbase' : base ≤ 16) (n : Nat) :
    readBack base ((numeral base n).map digitChar) = n := by
  have hvalue : value base (((numeral base n).map digitChar).map charDigit) = n := by
    rw [map_charDigit_numeral hbase hbase', value_numeral]
  cases hnum : numeral base n with
  | nil =>
    have hpos := length_numeral_pos base n
    rw [hnum] at hpos
    cases hpos
  | cons d ds =>
    have hd : d < 16 := by
      have hmem : d ∈ numeral base n := by rw [hnum]; exact List.mem_cons_self
      exact (lt_of_mem_numeral hbase hmem).trans_le hbase'
    rw [hnum] at hvalue
    rw [List.map_cons, readBack, if_neg (digitChar_ne_minus hd), ← List.map_cons, hvalue]

lemma readBack_itoaText (h : ItoaReturns num base) :
    readBack base (itoaText num base) = if base = 2 then (num.natAbs : Int) else num := by
  have hbase : 2 ≤ base ∧ base ≤ 16 := by
    rcases h.1 with rfl | rfl | rfl <;> omega
  by_cases hneg : num < 0 ∧ base = 10
  · have hvalue : value base (((numeral base num.natAbs).map digitChar).map charDigit) =
        num.natAbs := by rw [map_charDigit_numeral hbase.1 hbase.2, value_numeral]
    rw [itoaText, if_pos hneg, List.singleton_append, readBack, if_pos rfl, hvalue,
      if_neg (by omega)]
    omega
  · rw [itoaText, if_neg hneg, List.nil_append, readBack_digits hbase.1 hbase.2]
    have hret := h.2
    rcases h.1 with rfl | rfl | rfl
    · rw [if_pos rfl]
    · rw [if_neg (by decide)]
      omega
    · rw [if_neg (by decide)]
      omega

/-- `kernel_itoa` returns in three bases only, and its text stands before the pointer it
returns. -/
lemma text_of_returned {buf p : Nat} {num : BitVec 32} {base : Int} {b b' : CharBuf}
    {s s' : Console} (h : (kernelItoa buf num.toInt base b).exec s = (.ok (p, b'), s')) :
    ItoaReturns num.toInt base.toNat ∧ base = base.toNat ∧
      slice b'.bytes buf (p - buf) = itoaText num.toInt base.toNat := by
  have haccepted : base = 2 ∨ base = 10 ∨ base = 16 := by
    by_contra hno
    rw [kernelItoa, if_pos (by omega), Code.exec_bind_ok (logPrintln_exec _)] at h
    cases h
  have hbase : base = base.toNat := by omega
  rw [hbase] at h
  have hreturns : ItoaReturns num.toInt base.toNat := by
    by_contra hno
    obtain ⟨msg, hspin⟩ := kernelItoa_spins hno buf b s
    rw [hspin] at h
    cases h
  refine ⟨hreturns, hbase, ?_⟩
  obtain ⟨b₁, hexec, hwrote⟩ := kernelItoa_exec hreturns (natAbs_toInt_le num) buf b s
  rw [hexec] at h
  cases h
  rw [hwrote.bytes, Nat.add_sub_cancel_left]
  exact slice_write

end ReadBack

/-- Two calls that return, with the same base. The text is read back as the number unless a
sign was dropped, and two numbers have different texts unless one is the other without its
sign. -/
theorem itoa_determines_number (num num' : BitVec 32) (base : Int) (buf buf' p p' : Nat)
    (b b' bEnd bEnd' : CharBuf) (s s' sEnd sEnd' : Console)
    (h : (kernelItoa buf num.toInt base b).exec s = (.ok (p, bEnd), sEnd))
    (h' : (kernelItoa buf' num'.toInt base b').exec s' = (.ok (p', bEnd'), sEnd')) :
    (readBack base.toNat (slice bEnd.bytes buf (p - buf)) = num.toInt ↔
      ¬ (base = 2 ∧ num.toInt < 0)) ∧
    ((slice bEnd.bytes buf (p - buf) = slice bEnd'.bytes buf' (p' - buf') → num = num') ↔
      ¬ (base = 2 ∧ num ≠ num' ∧ num.toInt = -num'.toInt)) := by
  obtain ⟨hret, hbase, htext⟩ := text_of_returned h
  obtain ⟨hret', -, htext'⟩ := text_of_returned h'
  have hread := readBack_itoaText hret
  have hread' := readBack_itoaText hret'
  have hne : num ≠ num' → num.toInt ≠ num'.toInt := fun hne he => hne (BitVec.eq_of_toInt_eq he)
  have htwo : base = 2 ↔ base.toNat = 2 := by omega
  rw [htext, htext', hread, htwo]
  constructor
  · split <;> omega
  · constructor
    · rintro hinj ⟨hb, hdiff, hopp⟩
      refine hdiff (hinj ?_)
      have habs : num.toInt.natAbs = num'.toInt.natAbs := by omega
      simp [itoaText, hb, habs]
    · intro hno he
      rw [he, hread'] at hread
      by_contra hdiff
      have := hne hdiff
      split at hread
      · exact hno ⟨by assumption, hdiff, by omega⟩
      · omega

theorem itoa_determines_minus_ten : ∃ bEnd bEnd',
    (kernelItoa 0 (-10#32).toInt 10 ⟨fun _ => 0, []⟩).exec .idle = (.ok (3, bEnd), .idle) ∧
    (kernelItoa 0 (10#32).toInt 10 ⟨fun _ => 0, []⟩).exec .idle = (.ok (2, bEnd'), .idle) ∧
    readBack 10 (slice bEnd.bytes 0 3) = -10 ∧ slice bEnd.bytes 0 3 ≠ slice bEnd'.bytes 0 2 := by
  obtain ⟨bEnd, h, -⟩ := kernelItoa_exec (⟨by simp, by simp⟩ : ItoaReturns (-10#32).toInt 10)
    (by decide) 0 ⟨fun _ => 0, []⟩ .idle
  obtain ⟨bEnd', h', -⟩ := kernelItoa_exec (⟨by simp, by simp⟩ : ItoaReturns (10#32).toInt 10)
    (by decide) 0 ⟨fun _ => 0, []⟩ .idle
  have hlen : 0 + (itoaText (-10#32).toInt 10).length = 3 := by decide +kernel
  have hlen' : 0 + (itoaText (10#32).toInt 10).length = 2 := by decide +kernel
  rw [hlen] at h
  rw [hlen'] at h'
  obtain ⟨hread, hinj⟩ := itoa_determines_number _ _ 10 0 0 3 2 _ _ _ _ _ _ _ _ h h'
  have hread := hread.mpr (by decide)
  have hinj := hinj.mpr (by decide)
  exact ⟨bEnd, bEnd', h, h', hread, fun he => absurd (hinj he) (by decide)⟩

/-- The text of -5 in base 2 is `101`, which is 5. -/
theorem itoa_base_two_drops_sign : ∃ bEnd,
    (kernelItoa 0 (-5#32).toInt 2 ⟨fun _ => 0, []⟩).exec .idle = (.ok (3, bEnd), .idle) ∧
    readBack 2 (slice bEnd.bytes 0 3) ≠ (-5#32).toInt := by
  obtain ⟨bEnd, h, hwrote⟩ := kernelItoa_exec (⟨by simp, by simp⟩ : ItoaReturns (-5#32).toInt 2)
    (by decide) 0 ⟨fun _ => 0, []⟩ .idle
  have htext : itoaText (-5#32).toInt 2 = lit "101" := by decide +kernel
  rw [htext] at h hwrote
  refine ⟨bEnd, h, ?_⟩
  have hslice : slice bEnd.bytes 0 3 = lit "101" := by
    rw [hwrote.bytes]
    exact slice_write
  rw [hslice]
  decide

end OsToyI386
