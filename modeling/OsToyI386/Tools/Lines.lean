import OsToyI386.Tools.Rendering
import Mathlib.Data.List.TakeWhile

/-!
# Lines on the serial port

Formats that are rows of labelled numbers, and what a `log_printfln` of such a format
prints: its rendering as a line, out of a buffer that is filled up to the NUL.
-/

namespace OsToyI386

open Lib

/-- The end of a line. -/
def crlf : List (BitVec 8) := [ch '\r', ch '\n']

/-- The tokens of labels with a directive behind each. -/
def fieldTokens (t : Token) (labels : List String) : List Token :=
  labels.flatMap fun label => (lit label).map .lit ++ [t]

/-- Labels with a number behind each. -/
def fieldText (num : BitVec 32 → List (BitVec 8)) (fields : List (String × BitVec 32)) :
    List (BitVec 8) :=
  fields.flatMap fun f => lit f.1 ++ num f.2

/-- The arguments that are the numbers. -/
def fieldArgs (fields : List (String × BitVec 32)) : List Arg := fields.map fun f => .int f.2

section Fields

variable {t : Token} {ts : List Token} {args : List Arg} {fields : List (String × BitVec 32)}
  {num : BitVec 32 → List (BitVec 8)}

lemma render_nil (args : List Arg) : render [] args = [] := by simp [render]

lemma hexArgs_nil (args : List Arg) : hexArgs [] args = [] := by simp [hexArgs]

lemma render_lits (xs : List (BitVec 8)) :
    render (xs.map .lit ++ ts) args = xs ++ render ts args := by
  induction xs with
  | nil => rfl
  | cons x xs ih => rw [List.map_cons, List.cons_append, render, ih, List.cons_append]

lemma typed_lits (xs : List (BitVec 8)) : Typed (xs.map .lit ++ ts) args ↔ Typed ts args := by
  induction xs with
  | nil => rfl
  | cons x xs ih => rw [List.map_cons, List.cons_append, Typed, ih]

lemma hexArgs_lits (xs : List (BitVec 8)) :
    hexArgs (xs.map .lit ++ ts) args = hexArgs ts args := by
  induction xs with
  | nil => rfl
  | cons x xs ih => rw [List.map_cons, List.cons_append, hexArgs, ih]

lemma fieldTokens_cons (label : String) (labels : List String) :
    fieldTokens t (label :: labels) ++ ts =
      (lit label).map .lit ++ t :: (fieldTokens t labels ++ ts) := by
  simp [fieldTokens]

lemma render_fields
    (ht : ∀ v ts args, render (t :: ts) (.int v :: args) = num v ++ render ts args) :
    render (fieldTokens t (fields.map Prod.fst) ++ ts) (fieldArgs fields) =
      fieldText num fields ++ render ts [] := by
  induction fields with
  | nil => rfl
  | cons f fields ih =>
    rw [List.map_cons, fieldTokens_cons, render_lits, fieldArgs, List.map_cons, ht]
    rw [fieldArgs] at ih
    rw [ih, fieldText, fieldText, List.flatMap_cons, List.append_assoc, List.append_assoc]

lemma typed_fields (ht : ∀ v ts args, Typed (t :: ts) (.int v :: args) ↔ Typed ts args) :
    Typed (fieldTokens t (fields.map Prod.fst) ++ ts) (fieldArgs fields) ↔ Typed ts [] := by
  induction fields with
  | nil => rfl
  | cons f fields ih =>
    rw [List.map_cons, fieldTokens_cons, typed_lits, fieldArgs, List.map_cons, ht]
    exact ih

lemma hexArgs_fields (ht : ∀ v ts args, hexArgs (t :: ts) (.int v :: args) =
    (if t = .hex then [v] else []) ++ hexArgs ts args) :
    hexArgs (fieldTokens t (fields.map Prod.fst) ++ ts) (fieldArgs fields) =
      (if t = .hex then fields.map Prod.snd else []) ++ hexArgs ts [] := by
  induction fields with
  | nil => split <;> rfl
  | cons f fields ih =>
    rw [List.map_cons, fieldTokens_cons, hexArgs_lits, fieldArgs, List.map_cons, ht]
    rw [fieldArgs] at ih
    rw [ih]
    split <;> simp

lemma length_fieldText : (fieldText num fields).length =
    (fields.map fun f => (lit f.1).length + (num f.2).length).sum := by
  simp [fieldText, List.length_flatMap]

end Fields

lemma mem_of_lit_mem_tokens {fmt : List (BitVec 8)} {c : BitVec 8} (h : .lit c ∈ tokens fmt) :
    c ∈ fmt := by
  have hdirective : ∀ d, directive d ≠ .lit c := by
    intro d
    unfold directive
    split_ifs <;> simp
  induction fmt using tokens.induct with
  | case1 => simp [tokens] at h
  | case2 => simp [tokens] at h
  | case3 d hd =>
    rw [tokens, if_neg hd, List.mem_singleton, Token.lit.injEq] at h
    simp [h]
  | case4 d fmt ih =>
    rw [tokens, if_pos rfl, List.mem_cons] at h
    rcases h with h | h
    · exact absurd h.symm (hdirective d)
    · exact List.mem_cons_of_mem _ (List.mem_cons_of_mem _ (ih h))
  | case5 d e fmt hd ih =>
    rw [tokens, if_neg hd, List.mem_cons, Token.lit.injEq] at h
    rcases h with rfl | h
    · exact List.mem_cons_self
    · exact List.mem_cons_of_mem _ (ih h)

lemma digitChar_ne_zero {d : Nat} (h : d < 16) : digitChar d ≠ 0 := by
  interval_cases d <;> decide

lemma zero_not_mem_digits {b n : Nat} (hb : 1 < b) (hb' : b ≤ 16) :
    0#8 ∉ (numeral b n).map digitChar := by
  rw [List.mem_map]
  rintro ⟨d, hd, hzero⟩
  exact digitChar_ne_zero ((lt_of_mem_numeral hb hd).trans_le hb') hzero

lemma zero_not_mem_decimalNumeral (z : Int) : 0#8 ∉ decimalNumeral z := by
  rw [decimalNumeral, List.mem_append]
  rintro (h | h)
  · split at h
    · exact absurd h (by decide)
    · simp at h
  · exact zero_not_mem_digits (by decide) (by decide) h

lemma zero_not_mem_render {ts : List Token} {args : List Arg} (hlit : .lit 0 ∉ ts)
    (hchr : .chr ∉ ts) : 0#8 ∉ render ts args := by
  induction ts generalizing args with
  | nil => simp [render]
  | cons t ts ih =>
    simp only [List.mem_cons, not_or] at hlit hchr
    have hrest : ∀ args, 0#8 ∉ render ts args := fun args => ih hlit.2 hchr.2
    cases t with
    | lit c =>
      have hc : (0 : BitVec 8) ≠ c := fun he => hlit.1 (by rw [he])
      rw [render, List.mem_cons, not_or]
      exact ⟨hc, hrest args⟩
    | percent =>
      rw [render, List.mem_cons, not_or]
      exact ⟨by decide, hrest args⟩
    | unknown =>
      rw [render, List.mem_cons, not_or]
      exact ⟨by decide, hrest args⟩
    | str =>
      rcases args with _ | ⟨str | v, args⟩
      · simp [render]
      · rw [render, List.mem_append, not_or]
        exact ⟨str.nonzero, hrest args⟩
      · simp [render]
    | dec =>
      rcases args with _ | ⟨str | v, args⟩
      · simp [render]
      · simp [render]
      · rw [render, List.mem_append, not_or]
        exact ⟨zero_not_mem_decimalNumeral _, hrest args⟩
    | hex =>
      rcases args with _ | ⟨str | v, args⟩
      · simp [render]
      · simp [render]
      · rw [render, List.mem_append, not_or]
        exact ⟨zero_not_mem_digits (by decide) (by decide), hrest args⟩
    | chr => exact absurd rfl hchr.1

/-- The last cell written is number `n`. -/
def CharBuf.FilledTo (b : CharBuf) (n : Nat) : Prop := n ∈ b.writes ∧ ∀ w ∈ b.writes, w ≤ n

/-- Bytes have been written to the port, and buffers filled up to the given cells. -/
structure Prints (s s' : Console) (bytes : List (BitVec 8)) (ends : List Nat) : Prop where
  line : s'.line = s.line ++ bytes
  strBufs : ∃ bufs, s'.strBufs = s.strBufs ++ bufs ∧ List.Forall₂ CharBuf.FilledTo bufs ends

section Prints

variable {s s' s'' : Console} {bytes bytes' : List (BitVec 8)} {ends ends' : List Nat}
  {fmt : CString} {args : List Arg}

lemma Prints.trans (h : Prints s s' bytes ends) (h' : Prints s' s'' bytes' ends') :
    Prints s s'' (bytes ++ bytes') (ends ++ ends') := by
  obtain ⟨bufs, hbufs, hfilled⟩ := h.strBufs
  obtain ⟨bufs', hbufs', hfilled'⟩ := h'.strBufs
  refine ⟨by rw [h'.line, h.line, List.append_assoc], bufs ++ bufs', ?_,
    List.rel_append hfilled hfilled'⟩
  rw [hbufs', hbufs, List.append_assoc]

lemma Prints.writes_lt (h : Prints s s' bytes ends) (size : Nat) :
    ∃ bufs, s'.strBufs = s.strBufs ++ bufs ∧ bufs.length = ends.length ∧
      ((∀ b ∈ bufs, ∀ w ∈ b.writes, w < size) ↔ ∀ n ∈ ends, n < size) := by
  obtain ⟨bufs, hbufs, hfilled⟩ := h.strBufs
  refine ⟨bufs, hbufs, hfilled.length_eq, ?_⟩
  clear hbufs h
  induction hfilled with
  | nil => simp
  | cons hb _ ih =>
    rw [List.forall_mem_cons, List.forall_mem_cons, ih]
    refine and_congr_left fun _ => ⟨fun hall => hall _ hb.1, fun hn w hw => ?_⟩
    exact (hb.2 w hw).trans_lt hn

lemma logPrintln_prints (msg : List (BitVec 8)) :
    ∃ s', (logPrintln msg).exec s = (.ok (), s') ∧ Prints s s' (msg ++ crlf) [] := by
  refine ⟨_, logPrintln_exec msg, ?_, [], ?_, .nil⟩
  · rw [Console.line_ended, Console.line_printed, List.append_assoc]
    rfl
  · rw [List.append_nil]
    exact Console.printed_strBufs s msg

lemma logPrintfln_prints (ht : Typed (tokens fmt.bytes) args)
    (hx : Unsigned (tokens fmt.bytes) args) (hchr : .chr ∉ tokens fmt.bytes) :
    ∃ s', (logPrintfln fmt args).exec s = (.ok (), s') ∧
      Prints s s' (render (tokens fmt.bytes) args ++ crlf)
        [(render (tokens fmt.bytes) args).length] := by
  obtain ⟨b, hexec, hwrote, hnul⟩ := kernelVsprintf_exec ht hx 0 ⟨s.stack, []⟩ s
  have hnonzero : 0#8 ∉ render (tokens fmt.bytes) args :=
    zero_not_mem_render (fun h => fmt.nonzero (mem_of_lit_mem_tokens h)) hchr
  have htext : (slice b.bytes 0 (0 + (render (tokens fmt.bytes) args).length)).takeWhile (· ≠ 0) =
      render (tokens fmt.bytes) args := by
    rw [hwrote.bytes, write_append, slice_congr (g := write s.stack 0 _), Nat.zero_add, slice_write]
    · rw [List.takeWhile_eq_self_iff]
      intro c hc
      rw [decide_eq_true_eq]
      intro hz
      rw [hz] at hc
      exact hnonzero hc
    · intro i hi
      exact write_of_lt (by omega)
  refine ⟨_, logPrintfln_exec hexec, ?_, [b], ?_, .cons ⟨?_, fun w hw => ?_⟩ .nil⟩
  · rw [htext, Console.line_ended, Console.line_printed, List.append_assoc]
    rfl
  · exact Console.printed_strBufs _ _
  · rwa [Nat.zero_add] at hnul
  · have hin := hwrote.inside w hw
    simp at hin
    omega

end Prints

end OsToyI386
