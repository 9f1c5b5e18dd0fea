import OsToyI386.Tools.Format

/-!
# What the serial port sees

The rules for code that runs to its end, and the log code by what it does to the port: each
wait polls once, each character is sent, and the line ends with CR and LF.
-/

namespace OsToyI386

open Lib

namespace Code

variable {α β : Type} {x : Code α} {f : α → Code β} {a : α} {e : Fault} {s s' : Console}

lemma exec_pure (a : α) (s : Console) : (pure a : Code α).exec s = (.ok a, s) := rfl

lemma exec_bind (x : Code α) (f : α → Code β) (s : Console) : (x >>= f).exec s =
    match x.exec s with
    | (.ok a, s') => (f a).exec s'
    | (.error e, s') => (.error e, s') := by
  simp only [exec, ExceptT.run_bind, StateT.run_bind]
  rcases StateT.run (ExceptT.run x) s with ⟨r, s₁⟩
  cases r <;> rfl

lemma exec_bind_ok (h : x.exec s = (.ok a, s')) : (x >>= f).exec s = (f a).exec s' := by
  rw [exec_bind, h]

lemma exec_bind_error (h : x.exec s = (.error e, s')) : (x >>= f).exec s = (.error e, s') := by
  rw [exec_bind, h]

end Code

namespace Console

/-- Before any output, with a UART that is never busy. -/
def idle : Console := ⟨fun _ => 0x60#8, 0, fun _ => 0, [], []⟩

/-- After a read of the line status. -/
def polled (s : Console) : Console :=
  { s with polls := s.polls + 1, trace := s.trace ++ [.lineStatus (s.lineStatus s.polls)] }

/-- After a byte has been written to the data port. -/
def sent (s : Console) (b : BitVec 8) : Console := { s with trace := s.trace ++ [.data b] }

/-- After the characters have been printed. -/
def printed (s : Console) (msg : List (BitVec 8)) : Console :=
  msg.foldl (fun s c => s.polled.sent c) s

/-- After the end of the line. -/
def ended (s : Console) : Console := (s.sent (ch '\r')).sent (ch '\n')

/-- After `str_buf` has been filled. -/
def formatted (s : Console) (b : CharBuf) : Console := { s with strBufs := s.strBufs ++ [b] }

end Console

variable {s s' : Console}

lemma inLineStatus_exec : inLineStatus.exec s = (.ok (s.lineStatus s.polls), s.polled) := rfl

lemma outCom1_exec (b : BitVec 8) : (outCom1 b).exec s = (.ok (), s.sent b) := rfl

/-- The wait never lasts: what it tests is zero whatever the line status is. -/
lemma waitLoop_exec {fuel : Nat} (h : 0 < fuel) : (waitLoop fuel).exec s = (.ok (), s.polled) := by
  obtain ⟨n, rfl⟩ := Nat.exists_eq_succ_of_ne_zero (by omega : fuel ≠ 0)
  rw [waitLoop, Code.exec_bind_ok inLineStatus_exec]
  have hmask : ∀ v : BitVec 8,
      v.setWidth 32 &&& (if 1#32 <<< 6 = 0#32 then 1#32 else 0#32) = 0#32 := by simp
  rw [if_neg (by rw [hmask]; simp)]
  exact Code.exec_pure ..

lemma printString_exec (msg : List (BitVec 8)) :
    (printString msg).exec s = (.ok (), s.printed msg) := by
  induction msg generalizing s with
  | nil => rfl
  | cons c msg ih =>
    rw [printString, Code.exec_bind_ok (waitLoop_exec (by decide)),
      Code.exec_bind_ok (outCom1_exec c), ih]
    rfl

lemma logPrintln_exec (msg : List (BitVec 8)) :
    (logPrintln msg).exec s = (.ok (), (s.printed msg).ended) := by
  rw [logPrintln, Code.exec_bind_ok (printString_exec msg), Code.exec_bind_ok (outCom1_exec _)]
  rfl

lemma printBuf_exec (n p : Nat) (b : CharBuf) : (printBuf n p b).exec s =
    (.ok (), s.printed ((slice b.bytes p n).takeWhile (· ≠ 0))) := by
  induction n generalizing s p with
  | zero => rfl
  | succ n ih =>
    rw [slice_succ]
    by_cases hz : b.bytes p = 0
    · rw [printBuf, if_neg (by simpa using hz)]
      simp [hz, Console.printed, Code.exec_pure]
    · rw [printBuf, if_pos hz, Code.exec_bind_ok (waitLoop_exec (by decide)),
        Code.exec_bind_ok (outCom1_exec _), ih, List.takeWhile_cons_of_pos (by simpa using hz)]
      rfl

lemma logPrintfln_exec {fmt : CString} {args : List Arg} {n : Nat} {b : CharBuf}
    (h : (kernelVsprintf 0 fmt args ⟨s.stack, []⟩).exec s = (.ok (n, b), s)) :
    (logPrintfln fmt args).exec s =
      (.ok (), ((s.formatted b).printed ((slice b.bytes 0 n).takeWhile (· ≠ 0))).ended) := by
  have hget : (get : Code Console).exec s = (.ok s, s) := rfl
  have hmodify : (modify fun s : Console => { s with strBufs := s.strBufs ++ [b] } :
      Code PUnit).exec s = (.ok ⟨⟩, s.formatted b) := rfl
  rw [logPrintfln, Code.exec_bind_ok hget, Code.exec_bind_ok h, Code.exec_bind_ok hmodify,
    Code.exec_bind_ok (printBuf_exec n 0 b), Code.exec_bind_ok (outCom1_exec _)]
  rfl

lemma logPrintfln_spins {fmt : CString} {args : List Arg} {e : Fault}
    (h : (kernelVsprintf 0 fmt args ⟨s.stack, []⟩).exec s = (.error e, s')) :
    (logPrintfln fmt args).exec s = (.error e, s') := by
  have hget : (get : Code Console).exec s = (.ok s, s) := rfl
  rw [logPrintfln, Code.exec_bind_ok hget, Code.exec_bind_error h]

def PortOp.sent : PortOp → Option (BitVec 8)
  | data b => some b
  | lineStatus _ => none

/-- The bytes written to the data port. -/
def Console.line (s : Console) : List (BitVec 8) := s.trace.filterMap PortOp.sent

namespace Console

lemma line_printed (s : Console) (msg : List (BitVec 8)) :
    (s.printed msg).line = s.line ++ msg := by
  induction msg generalizing s with
  | nil => simp [printed]
  | cons c msg ih =>
    have hone : (s.polled.sent c).line = s.line ++ [c] := by
      simp only [line, polled, sent, List.append_assoc, List.filterMap_append]
      rfl
    have hfold : s.printed (c :: msg) = (s.polled.sent c).printed msg := rfl
    rw [hfold, ih, hone, List.append_assoc, List.singleton_append]

lemma line_ended (s : Console) : s.ended.line = s.line ++ [ch '\r', ch '\n'] := by
  simp only [line, ended, sent, List.append_assoc, List.filterMap_append]
  rfl

lemma printed_strBufs (s : Console) (msg : List (BitVec 8)) :
    (s.printed msg).strBufs = s.strBufs := by
  induction msg generalizing s with
  | nil => rfl
  | cons c msg ih => exact ih _

end Console

end OsToyI386
