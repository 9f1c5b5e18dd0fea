import OsToyI386.Scheduler.Logging
import OsToyI386.Tools.Rendering

/-!
# Waiting for the UART

The line status is read before each character, but the loop that should wait compares
before it masks and never turns: a byte is written whatever was read. The two bytes that
end a line are written without a read.
-/

namespace OsToyI386

open Lib

/-- Each byte is written after a read of the line status with bit 6 set, and after the byte
before it; `ready` says whether there has been one so far. -/
def Polite : Bool → List PortOp → Prop
  | _, [] => True
  | ready, .lineStatus v :: ops => Polite (ready || v.getLsbD 6) ops
  | ready, .data _ :: ops => ready = true ∧ Polite false ops

/-- The accesses that print characters: one read for each of them. -/
def polledBytes (lineStatus : Nat → BitVec 8) : Nat → List (BitVec 8) → List PortOp
  | _, [] => []
  | polls, c :: msg =>
    .lineStatus (lineStatus polls) :: .data c :: polledBytes lineStatus (polls + 1) msg

variable {s : Console} {ready : Bool}

lemma polite_append {ops ops' : List PortOp} (h : Polite ready (ops ++ ops')) :
    ∃ ready', Polite ready' ops' := by
  induction ops generalizing ready with
  | nil => exact ⟨ready, h⟩
  | cons op ops ih =>
    cases op with
    | lineStatus v => exact ih h
    | data b => exact ih h.2

lemma not_polite_pair (ops : List PortOp) (b b' : BitVec 8) :
    ¬ Polite ready (ops ++ [.data b, .data b']) := by
  intro h
  obtain ⟨ready', hpair⟩ := polite_append h
  exact Bool.false_ne_true hpair.2.1

lemma printed_trace (msg : List (BitVec 8)) :
    (s.printed msg).trace = s.trace ++ polledBytes s.lineStatus s.polls msg := by
  induction msg generalizing s with
  | nil => simp [Console.printed, polledBytes]
  | cons c msg ih =>
    have hfold : s.printed (c :: msg) = (s.polled.sent c).printed msg := rfl
    rw [hfold, ih]
    simp [Console.polled, Console.sent, polledBytes]

lemma ended_trace : s.ended.trace = s.trace ++ [.data (ch '\r'), .data (ch '\n')] := by
  simp [Console.ended, Console.sent]

lemma exists_ops_ended (msg : List (BitVec 8)) :
    ∃ ops, (s.printed msg).ended.trace = s.trace ++ ops ∧ ¬ Polite ready ops := by
  refine ⟨polledBytes s.lineStatus s.polls msg ++ [.data (ch '\r'), .data (ch '\n')], ?_,
    not_polite_pair _ _ _⟩
  rw [ended_trace, printed_trace, List.append_assoc]

lemma line_println (msg : List (BitVec 8)) :
    (s.printed msg).ended.line = s.line ++ logLine msg := by
  rw [Console.line_ended, Console.line_printed, List.append_assoc]
  rfl

/-- Any message, and any format with arguments of its types, whether the call returns or
`kernel_itoa` stops it: at the latest the end of the line is written without waiting. -/
theorem log_never_waits (s : Console) (ready : Bool) :
    (∀ msg, ∃ s' ops, (logPrintln msg).exec s = (.ok (), s') ∧ s'.trace = s.trace ++ ops ∧
      s'.line = s.line ++ logLine msg ∧ ¬ Polite ready ops) ∧
    (∀ fmt args, Typed (tokens fmt.bytes) args →
      ∃ r s' ops, (logPrintfln fmt args).exec s = (r, s') ∧ s'.trace = s.trace ++ ops ∧
        ¬ Polite ready ops) := by
  constructor
  · intro msg
    obtain ⟨ops, htrace, hpolite⟩ := exists_ops_ended msg
    exact ⟨_, ops, logPrintln_exec msg, htrace, line_println msg, hpolite⟩
  · intro fmt args ht
    by_cases hx : Unsigned (tokens fmt.bytes) args
    · obtain ⟨b, hexec, -⟩ := kernelVsprintf_exec ht hx 0 ⟨s.stack, []⟩ s
      obtain ⟨ops, htrace, hpolite⟩ := exists_ops_ended (s := s.formatted b)
        ((slice b.bytes 0 (0 + (render (tokens fmt.bytes) args).length)).takeWhile (· ≠ 0))
      exact ⟨.ok (), _, ops, logPrintfln_exec hexec, htrace, hpolite⟩
    · obtain ⟨msg, hspin⟩ := kernelVsprintf_spins ht hx 0 ⟨s.stack, []⟩ s
      obtain ⟨ops, htrace, hpolite⟩ := exists_ops_ended msg
      exact ⟨.error .spin, _, ops, logPrintfln_spins hspin, htrace, hpolite⟩

/-- A line that is printed as it stands. -/
def plainFormat : CString := ⟨lit "ok", by decide, by decide⟩

theorem log_never_waits_ok : ∃ r s' ops,
    (logPrintfln plainFormat []).exec .idle = (r, s') ∧ s'.trace = ops ∧
      ¬ Polite false ops := by
  obtain ⟨r, s', ops, hexec, htrace, hpolite⟩ :=
    (log_never_waits .idle false).2 plainFormat [] (by trivial)
  exact ⟨r, s', ops, hexec, htrace, hpolite⟩

/-- A UART that is busy, and is written to all the same. -/
theorem log_writes_to_busy_uart :
    (logPrintln (lit "x")).exec { Console.idle with lineStatus := fun _ => 0x20#8 } =
      (.ok (), { Console.idle with
        lineStatus := fun _ => 0x20#8
        polls := 1
        trace := [.lineStatus 0x20#8, .data (ch 'x'), .data (ch '\r'), .data (ch '\n')] }) ∧
    ¬ Polite false [.lineStatus 0x20#8, .data (ch 'x'), .data (ch '\r'), .data (ch '\n')] := by
  refine ⟨?_, not_polite_pair [.lineStatus 0x20#8, .data (ch 'x')] _ _⟩
  rw [logPrintln_exec]
  rfl

end OsToyI386
