import OsToyI386.Properties.Dump
import OsToyI386.Scheduler.Boot
import OsToyI386.Scheduler.Reports
import OsToyI386.Tools.Serial

/-!
# What comes to the serial line

However the UART was left, after `log_init` every byte of the log goes to its transmitter in
one format and at one speed. A failed assertion reports itself in four lines.
-/

namespace OsToyI386

open Lib

/-- The interrupt enables are cleared by the first write, if it is no write to the divisor. -/
lemma logInit_eq (u : Uart) : logInit u =
    { u with
      ier := if u.latch then u.ier else 0
      fcr := 0xC7, lcr := 0x03, mcr := 0x0F, divisorLow := 0x03, divisorHigh := 0x00 } := by
  have hports : logInit u = ((((((u.write 1#16 0x00).write 3#16 0x80).write 0#16 0x03).write 1#16
      0x00).write 3#16 0x03).write 2#16 0xC7).write 4#16 0x0F := by
    unfold logInit outbCom1 com1Port
    rfl
  have hrest : ∀ v : Uart, (((((v.write 3#16 0x80).write 0#16 0x03).write 1#16 0x00).write 3#16
      0x03).write 2#16 0xC7).write 4#16 0x0F = { v with
        fcr := 0xC7, lcr := 0x03, mcr := 0x0F, divisorLow := 0x03, divisorHigh := 0x00 } := by
    intro v
    simp [Uart.latch]
  rw [hports, hrest, Uart.write_one]
  cases u.latch <;> rfl

lemma access_foldl (ops : List PortOp) (u : Uart) : ops.foldl PortOp.access u =
    (ops.filterMap PortOp.sent).foldl (fun u b => u.write 0#16 b) u := by
  induction ops generalizing u with
  | nil => rfl
  | cons op ops ih =>
    cases op with
    | data b => exact ih _
    | lineStatus v => exact ih _

/-- Whatever the UART holds before, and whatever is logged afterwards: nothing is handed to the
transmitter but the bytes of the log, each as eight bits without parity at a third of the
highest speed; and the interrupts of the UART are off unless its latch bit was set at first. -/
theorem log_init_opens_line (u : Uart) (ops : List PortOp) :
    (ops.foldl PortOp.access (logInit u)).handed =
        u.handed ++ (ops.filterMap PortOp.sent).map (fun b => ⟨b, 3, 0x03⟩) ∧
      ((ops.foldl PortOp.access (logInit u)).ier = 0 ↔ u.latch = false ∨ u.ier = 0) := by
  have hformat : (logInit u).lcr = 0x03 := by rw [logInit_eq]
  have hlatch : (logInit u).latch = false := by
    rw [Uart.latch, hformat]
    decide
  have hdivisor : (logInit u).divisor = 3 := by
    rw [logInit_eq, Uart.divisor]
    exact (by decide : (0x00#8 ++ 0x03#8 : BitVec 16) = 3)
  rw [access_foldl, Uart.foldl_transmit _ _ hlatch, hformat, hdivisor, logInit_eq]
  refine ⟨rfl, ?_⟩
  cases u.latch <;> simp

section Panic

variable {s : Console}

lemma logPrintfln_label (fmt : CString) (label : List (BitVec 8)) (x : CString)
    (htok : tokens fmt.bytes = label.map .lit ++ [.str]) :
    ∃ s', (logPrintfln fmt [.str x]).exec s = (.ok (), s') ∧
      Prints s s' (label ++ x.bytes ++ crlf) [(label ++ x.bytes).length] := by
  have ht : Typed (tokens fmt.bytes) [.str x] := by
    rw [htok, typed_lits]
    trivial
  have hx : Unsigned (tokens fmt.bytes) [.str x] := by
    rw [Unsigned, htok, hexArgs_lits]
    simp [hexArgs]
  have hchr : .chr ∉ tokens fmt.bytes := by simp [htok]
  have htext : render (tokens fmt.bytes) [.str x] = label ++ x.bytes := by
    rw [htok, render_lits, render, render_nil, List.append_nil]
  rw [← htext]
  exact logPrintfln_prints ht hx hchr

lemma line_tokens (line : BitVec 32) : tokens lineFormat.bytes =
    fieldTokens .dec ([("line:", line)].map Prod.fst) ++ ([].map .lit ++ []) := by
  have h : tokens lineFormat.bytes = fieldTokens .dec ["line:"] := by decide +kernel
  rw [h, List.map_nil, List.append_nil, List.append_nil]
  rfl

/-- The lines of a report. -/
def panicLines (file : CString) (line : BitVec 32) (func cond : CString) :
    List (List (BitVec 8)) :=
  [lit "assert failed: " ++ cond.bytes, lit "file:" ++ file.bytes, lit "line:" ++ decNumber line,
    lit "func:" ++ func.bytes]

lemma panic_exec (s : Console) (file : CString) (line : BitVec 32) (func cond : CString) :
    ∃ s', (panic file line func cond).exec s = (.error .halt, s') ∧
      Prints s s' (textOfLines (panicLines file line func cond))
        ((panicLines file line func cond).map List.length) := by
  have htext : fieldText decNumber [("line:", line)] ++ [] = lit "line:" ++ decNumber line := by
    simp [fieldText]
  obtain ⟨s₁, hexec₁, hprints₁⟩ := logPrintfln_label (s := s) assertFormat
    (lit "assert failed: ") cond (by decide +kernel)
  obtain ⟨s₂, hexec₂, hprints₂⟩ := logPrintfln_label (s := s₁) fileFormat (lit "file:") file
    (by decide +kernel)
  obtain ⟨s₃, hexec₃, hprints₃⟩ := logPrintfln_decFields (s := s₂) (line_tokens line)
  obtain ⟨s₄, hexec₄, hprints₄⟩ := logPrintfln_label (s := s₃) funcFormat (lit "func:") func
    (by decide +kernel)
  rw [htext] at hprints₃
  refine ⟨s₄, ?_, ?_⟩
  · rw [panic]
    refine (Code.exec_bind_ok hexec₁).trans ((Code.exec_bind_ok hexec₂).trans ?_)
    refine (Code.exec_bind_ok hexec₃).trans ?_
    rw [Code.exec_bind_ok hexec₄]
    rfl
  · have hall := ((hprints₁.trans hprints₂).trans hprints₃).trans hprints₄
    simpa [textOfLines, panicLines] using hall

/-- Whatever the texts and the number, a failed assertion prints its four lines out of buffers
that hold them and halts, exactly if condition, file and function are no longer than 112, 122
and 122 characters. Where the mutex of `log.c` is free or the failing context's own, none of the
calls waits. -/
theorem panic_reports {b : BootMem} {ls : List Label} {m : Machine Sys} (hreach : b.Reaches ls m)
    (hlog : m.sys.MayLog) (s : Console) (file : CString) (line : BitVec 32)
    (func cond : CString) :
    ((∃ s' bufs, (panic file line func cond).exec s = (.error .halt, s') ∧
        s'.line = s.line ++ textOfLines (panicLines file line func cond) ∧
        s'.strBufs = s.strBufs ++ bufs ∧ bufs.length = 4 ∧ ∀ b ∈ bufs, ∀ w ∈ b.writes, w < 128) ↔
      cond.bytes.length ≤ 112 ∧ file.bytes.length ≤ 122 ∧ func.bytes.length ≤ 122) ∧
    ∀ eflags tr, let k := { m.sys with eflags, trace := tr }
      ∃ k₁ tr', ReturnsAtOnce (reinMutexLock .logMutex) k k₁ ∧
        ReturnsAtOnce (reinMutexUnlock .logMutex) k₁ { k with trace := tr' } := by
  refine ⟨?_, hreach.log_at_once hlog⟩
  obtain ⟨s', hexec, hprints⟩ := panic_exec s file line func cond
  obtain ⟨bufs, hbufs, hlen, hwrites⟩ := hprints.writes_lt 128
  have hfit : (∀ b ∈ bufs, ∀ w ∈ b.writes, w < 128) ↔
      cond.bytes.length ≤ 112 ∧ file.bytes.length ≤ 122 ∧ func.bytes.length ≤ 122 := by
    have hnum := length_decNumber line
    have hassert : (lit "assert failed: ").length = 15 := rfl
    have hfile : (lit "file:").length = 5 := rfl
    have hline : (lit "line:").length = 5 := rfl
    have hfunc : (lit "func:").length = 5 := rfl
    rw [hwrites, panicLines]
    simp only [List.map_cons, List.map_nil, List.forall_mem_cons, List.length_append, hassert,
      hfile, hline, hfunc, List.not_mem_nil, false_implies, implies_true, and_true]
    omega
  rw [← hfit]
  constructor
  · rintro ⟨s₁, bufs₁, hexec₁, -, hbufs₁, -, hwrites₁⟩
    have hsame : s₁ = s' := congrArg Prod.snd (hexec₁.symm.trans hexec)
    rw [hsame, hbufs] at hbufs₁
    rwa [List.append_cancel_left hbufs₁]
  · intro hall
    exact ⟨s', bufs, hexec, hprints.line, hbufs, hlen, hall⟩

/-- The assertion in `rein_mutex_unlock`, before any task runs. -/
theorem panic_reports_unlock : ∃ s',
    (panic ⟨lit "mutex.c", by decide, by decide⟩ 37 ⟨lit "rein_mutex_unlock", by decide, by decide⟩
      ⟨lit "lock->locker != 0", by decide, by decide⟩).exec .idle = (.error .halt, s') := by
  obtain ⟨s', -, hexec, -⟩ := (panic_reports (b := .zeroed) (.nil _) (Or.inl rfl) .idle
    ⟨lit "mutex.c", by decide, by decide⟩ 37 ⟨lit "rein_mutex_unlock", by decide, by decide⟩
    ⟨lit "lock->locker != 0", by decide, by decide⟩).1.mpr (by decide)
  exact ⟨s', hexec⟩

end Panic

end OsToyI386
