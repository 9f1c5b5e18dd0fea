import OsToyI386.Kernel.Irq
import OsToyI386.Tools.Lines

/-!
# The exception dump

The dump prints ten registers with `%x`, which does not return for a register whose highest
bit is set; then nothing behind it is printed. When it does return, the eight general
registers share one buffer of 128 characters, which is too small for them together.
-/

namespace OsToyI386

open Lib

def decNumber (v : BitVec 32) : List (BitVec 8) := decimalNumeral v.toInt

def hexNumber (v : BitVec 32) : List (BitVec 8) := hexNumeral v.toNat

namespace ExceptionFrame

variable (frame : ExceptionFrame)

def irqFields : List (String × BitVec 32) :=
  [("IRQ: ", frame.num), (", error code: ", frame.errorCode)]

def segmentFields : List (String × BitVec 32) :=
  [("CS: ", frame.cs), ("\r\nDS: ", frame.ds), ("\r\nES: ", frame.es), ("\r\nSS: ", frame.ds),
    ("\r\nFS: ", frame.fs), ("\r\nGS: ", frame.gs)]

def registerFields : List (String × BitVec 32) :=
  [("EAX: 0x", frame.eax), ("\r\nEBX: 0x", frame.ebx), ("\r\nECX: 0x", frame.ecx),
    ("\r\nEDX: 0x", frame.edx), ("\r\nEDI: 0x", frame.edi), ("\r\nESI: 0x", frame.esi),
    ("\r\nEBP: 0x", frame.ebp), ("\r\nESP: 0x", frame.esp)]

def eipFields : List (String × BitVec 32) :=
  [("EIP: 0x", frame.eip), ("\r\nEFLAGS: 0x", frame.eflags)]

/-- The lines of the dump. -/
def dumpLines : List (List (BitVec 8)) :=
  [fieldText decNumber frame.irqFields, fieldText decNumber frame.segmentFields ++ lit "\r",
    fieldText hexNumber frame.registerFields ++ lit "\r", fieldText hexNumber frame.eipFields]

/-- No register that is printed with `%x` has its highest bit set. -/
def Printable : Prop := ∀ f ∈ frame.registerFields ++ frame.eipFields, 0 ≤ f.2.toInt

/-- All fields. -/
def fields : List (BitVec 32) :=
  [frame.gs, frame.fs, frame.es, frame.ds, frame.edi, frame.esi, frame.ebp, frame.esp, frame.ebx,
    frame.edx, frame.ecx, frame.eax, frame.num, frame.errorCode, frame.eip, frame.cs,
    frame.eflags]

/-- The number of hexadecimal digits of the general registers together. -/
def digits : Nat := (frame.registerFields.map fun f => (hexNumber f.2).length).sum

end ExceptionFrame

/-- Lines with their ends. -/
def textOfLines (lines : List (List (BitVec 8))) : List (BitVec 8) := lines.flatMap (· ++ crlf)

/-- The whole text of a dump with its message, from separator to separator. -/
def dumpText (frame : ExceptionFrame) (msg : CString) : List (BitVec 8) :=
  textOfLines ([lit "-------------", lit "IRQ/EXCEPTION happened: " ++ msg.bytes] ++
    frame.dumpLines ++ [lit "-------------"])

section Calls

variable {s : Console} {fmt : CString} {fields : List (String × BitVec 32)}
  {tail : List (BitVec 8)}

lemma logPrintfln_decFields (htok : tokens fmt.bytes =
    fieldTokens .dec (fields.map Prod.fst) ++ (tail.map .lit ++ [])) :
    ∃ s', (logPrintfln fmt (fieldArgs fields)).exec s = (.ok (), s') ∧
      Prints s s' (fieldText decNumber fields ++ tail ++ crlf)
        [(fieldText decNumber fields ++ tail).length] := by
  have ht : Typed (tokens fmt.bytes) (fieldArgs fields) := by
    rw [htok, typed_fields fun _ _ _ => Iff.rfl, typed_lits]
    trivial
  have hx : Unsigned (tokens fmt.bytes) (fieldArgs fields) := by
    rw [Unsigned, htok, hexArgs_fields fun _ _ _ => rfl, hexArgs_lits]
    simp [hexArgs]
  have hchr : .chr ∉ tokens fmt.bytes := by simp [htok, fieldTokens]
  have htext : render (tokens fmt.bytes) (fieldArgs fields) =
      fieldText decNumber fields ++ tail := by
    rw [htok, render_fields fun _ _ _ => rfl, render_lits, render_nil, List.append_nil]
    rfl
  rw [← htext]
  exact logPrintfln_prints ht hx hchr

lemma logPrintfln_hexFields (htok : tokens fmt.bytes =
    fieldTokens .hex (fields.map Prod.fst) ++ (tail.map .lit ++ [])) :
    ((∀ f ∈ fields, 0 ≤ f.2.toInt) →
      ∃ s', (logPrintfln fmt (fieldArgs fields)).exec s = (.ok (), s') ∧
        Prints s s' (fieldText hexNumber fields ++ tail ++ crlf)
          [(fieldText hexNumber fields ++ tail).length]) ∧
    ((¬ ∀ f ∈ fields, 0 ≤ f.2.toInt) →
      ∃ s', (logPrintfln fmt (fieldArgs fields)).exec s = (.error .spin, s')) := by
  have ht : Typed (tokens fmt.bytes) (fieldArgs fields) := by
    rw [htok, typed_fields fun _ _ _ => Iff.rfl, typed_lits]
    trivial
  have hx : Unsigned (tokens fmt.bytes) (fieldArgs fields) ↔ ∀ f ∈ fields, 0 ≤ f.2.toInt := by
    rw [Unsigned, htok, hexArgs_fields fun _ _ _ => rfl, hexArgs_lits, if_pos rfl, hexArgs_nil,
      List.append_nil]
    exact List.forall_mem_map
  have hchr : .chr ∉ tokens fmt.bytes := by simp [htok, fieldTokens]
  have htext : render (tokens fmt.bytes) (fieldArgs fields) =
      fieldText hexNumber fields ++ tail := by
    rw [htok, render_fields fun _ _ _ => rfl, render_lits, render_nil, List.append_nil]
    rfl
  rw [← htext, ← hx]
  constructor
  · intro hunsigned
    exact logPrintfln_prints ht hunsigned hchr
  · intro hsigned
    obtain ⟨msg, hspin⟩ := kernelVsprintf_spins ht hsigned 0 ⟨s.stack, []⟩ s
    exact ⟨_, logPrintfln_spins hspin⟩

end Calls

section Dump

variable (s : Console) (frame : ExceptionFrame) (msg : CString)

lemma irq_tokens : tokens irqFormat.bytes =
    fieldTokens .dec (frame.irqFields.map Prod.fst) ++ ([].map .lit ++ []) := by
  have h : tokens irqFormat.bytes = fieldTokens .dec ["IRQ: ", ", error code: "] := by
    decide +kernel
  rw [h, List.map_nil, List.append_nil, List.append_nil]
  rfl

lemma segments_tokens : tokens segmentsFormat.bytes =
    fieldTokens .dec (frame.segmentFields.map Prod.fst) ++ ((lit "\r").map .lit ++ []) := by
  have h : tokens segmentsFormat.bytes = fieldTokens .dec
      ["CS: ", "\r\nDS: ", "\r\nES: ", "\r\nSS: ", "\r\nFS: ", "\r\nGS: "] ++
      ((lit "\r").map .lit ++ []) := by
    decide +kernel
  rw [h]
  rfl

lemma registers_tokens : tokens registersFormat.bytes =
    fieldTokens .hex (frame.registerFields.map Prod.fst) ++ ((lit "\r").map .lit ++ []) := by
  have h : tokens registersFormat.bytes = fieldTokens .hex
      ["EAX: 0x", "\r\nEBX: 0x", "\r\nECX: 0x", "\r\nEDX: 0x", "\r\nEDI: 0x", "\r\nESI: 0x",
        "\r\nEBP: 0x", "\r\nESP: 0x"] ++ ((lit "\r").map .lit ++ []) := by
    decide +kernel
  rw [h]
  rfl

lemma eip_tokens : tokens eipFormat.bytes =
    fieldTokens .hex (frame.eipFields.map Prod.fst) ++ ([].map .lit ++ []) := by
  have h : tokens eipFormat.bytes = fieldTokens .hex ["EIP: 0x", "\r\nEFLAGS: 0x"] := by
    decide +kernel
  rw [h, List.map_nil, List.append_nil, List.append_nil]
  rfl

lemma logPrintfln_happened : ∃ s', (logPrintfln happenedFormat [.str msg]).exec s = (.ok (), s') ∧
    Prints s s' (lit "IRQ/EXCEPTION happened: " ++ msg.bytes ++ crlf) [24 + msg.bytes.length] := by
  have htok : tokens happenedFormat.bytes =
      (lit "IRQ/EXCEPTION happened: ").map .lit ++ [.str] := by decide +kernel
  have ht : Typed (tokens happenedFormat.bytes) [.str msg] := by
    rw [htok, typed_lits]
    trivial
  have hx : Unsigned (tokens happenedFormat.bytes) [.str msg] := by
    rw [Unsigned, htok, hexArgs_lits]
    simp [hexArgs]
  have hchr : .chr ∉ tokens happenedFormat.bytes := by simp [htok]
  have htext : render (tokens happenedFormat.bytes) [.str msg] =
      lit "IRQ/EXCEPTION happened: " ++ msg.bytes := by
    rw [htok, render_lits, render, render_nil, List.append_nil]
  have hlen : (lit "IRQ/EXCEPTION happened: " ++ msg.bytes).length = 24 + msg.bytes.length := by
    rw [List.length_append]
    rfl
  rw [← htext] at hlen ⊢
  rw [← hlen]
  exact logPrintfln_prints ht hx hchr

lemma dumpCoreRegs_exec :
    (frame.Printable → ∃ s', (dumpCoreRegs frame).exec s = (.ok (), s') ∧
      Prints s s' (textOfLines frame.dumpLines) (frame.dumpLines.map List.length)) ∧
    (¬ frame.Printable → ∃ s', (dumpCoreRegs frame).exec s = (.error .spin, s')) := by
  obtain ⟨s₁, hexec₁, hprints₁⟩ := logPrintfln_decFields (s := s) (irq_tokens frame)
  obtain ⟨s₂, hexec₂, hprints₂⟩ := logPrintfln_decFields (s := s₁) (segments_tokens frame)
  obtain ⟨hthird, hstuck⟩ := logPrintfln_hexFields (s := s₂) (registers_tokens frame)
  have hhead : (dumpCoreRegs frame).exec s = (do
      logPrintfln registersFormat (fieldArgs frame.registerFields)
      logPrintfln eipFormat (fieldArgs frame.eipFields) : Code Unit).exec s₂ := by
    rw [dumpCoreRegs]
    exact (Code.exec_bind_ok hexec₁).trans (Code.exec_bind_ok hexec₂)
  rw [hhead, ExceptionFrame.Printable, List.forall_mem_append]
  constructor
  · rintro ⟨hregisters, heip⟩
    obtain ⟨s₃, hexec₃, hprints₃⟩ := hthird hregisters
    obtain ⟨s₄, hexec₄, hprints₄⟩ := (logPrintfln_hexFields (s := s₃) (eip_tokens frame)).1 heip
    have hall := ((hprints₁.trans hprints₂).trans hprints₃).trans hprints₄
    refine ⟨s₄, by rw [Code.exec_bind_ok hexec₃, hexec₄], ?_⟩
    simpa [textOfLines, ExceptionFrame.dumpLines] using hall
  · intro hno
    by_cases hregisters : ∀ f ∈ frame.registerFields, 0 ≤ f.2.toInt
    · obtain ⟨s₃, hexec₃, -⟩ := hthird hregisters
      rw [Code.exec_bind_ok hexec₃]
      exact (logPrintfln_hexFields (eip_tokens frame)).2 fun heip => hno ⟨hregisters, heip⟩
    · obtain ⟨s₃, hspin⟩ := hstuck hregisters
      exact ⟨s₃, Code.exec_bind_error hspin⟩

lemma doDefaultHandler_exec :
    (frame.Printable → ∃ s', (doDefaultHandler frame msg).exec s = (.error .halt, s') ∧
      Prints s s' (dumpText frame msg)
        ((24 + msg.bytes.length) :: frame.dumpLines.map List.length)) ∧
    (¬ frame.Printable → ∃ s', (doDefaultHandler frame msg).exec s = (.error .spin, s')) := by
  obtain ⟨s₁, hexec₁, hprints₁⟩ := logPrintln_prints (s := s) (lit "-------------")
  obtain ⟨s₂, hexec₂, hprints₂⟩ := logPrintfln_happened s₁ msg
  obtain ⟨hdump, hstuck⟩ := dumpCoreRegs_exec s₂ frame
  rw [doDefaultHandler, Code.exec_bind_ok hexec₁, Code.exec_bind_ok hexec₂]
  constructor
  · intro hprintable
    obtain ⟨s₃, hexec₃, hprints₃⟩ := hdump hprintable
    obtain ⟨s₄, hexec₄, hprints₄⟩ := logPrintln_prints (s := s₃) (lit "-------------")
    rw [Code.exec_bind_ok hexec₃, Code.exec_bind_ok hexec₄]
    have hall := ((hprints₁.trans hprints₂).trans hprints₃).trans hprints₄
    refine ⟨s₄, rfl, ?_⟩
    simpa [dumpText, textOfLines] using hall
  · intro hno
    obtain ⟨s₃, hspin⟩ := hstuck hno
    exact ⟨s₃, Code.exec_bind_error hspin⟩

end Dump

/-! ### Completion -/

/-- Whatever the frame and the message: the handler halts with the whole dump printed exactly
when no register that it prints with `%x` has its highest bit set. -/
theorem dump_completes_iff (frame : ExceptionFrame) (msg : CString) (s : Console) :
    (∃ s', (doDefaultHandler frame msg).exec s = (.error .halt, s') ∧
      s'.line = s.line ++ dumpText frame msg) ↔
    ∀ v ∈ [frame.eax, frame.ebx, frame.ecx, frame.edx, frame.edi, frame.esi, frame.ebp,
      frame.esp, frame.eip, frame.eflags], 0 ≤ v.toInt := by
  have hregs : frame.Printable ↔ ∀ v ∈ [frame.eax, frame.ebx, frame.ecx, frame.edx, frame.edi,
      frame.esi, frame.ebp, frame.esp, frame.eip, frame.eflags], 0 ≤ v.toInt := by
    simp [ExceptionFrame.Printable, ExceptionFrame.registerFields, ExceptionFrame.eipFields]
  obtain ⟨hhalts, hspins⟩ := doDefaultHandler_exec s frame msg
  rw [← hregs]
  constructor
  · rintro ⟨s', hexec, -⟩
    by_contra hno
    obtain ⟨s₁, hspin⟩ := hspins hno
    rw [hspin] at hexec
    cases hexec
  · intro hprintable
    obtain ⟨s', hexec, hprints⟩ := hhalts hprintable
    exact ⟨s', hexec, hprints.line⟩

/-- A page fault with a kernel pointer in the upper half of the address space in `EAX`. -/
def highFrame : ExceptionFrame :=
  { gs := 16, fs := 16, es := 16, ds := 16, edi := 0, esi := 0, ebp := 0, esp := 0x1FFFC0
    ebx := 0, edx := 0, ecx := 0, eax := 0x80000000, num := 14, errorCode := 0
    eip := 0x10000, cs := 8, eflags := 0x202 }

/-- The dump of this frame stops inside its third call for good. -/
theorem dump_stops_at_high_register :
    ¬ ∃ s', (doHandlerPageFault highFrame).exec .idle = (.error .halt, s') ∧
      s'.line = Console.idle.line ++ dumpText highFrame Exn.pageFault.msg := by
  rintro ⟨s', hexec, -⟩
  have hneg : ¬ highFrame.Printable := fun h =>
    absurd (h ("EAX: 0x", highFrame.eax) List.mem_cons_self) (by decide)
  obtain ⟨s₁, hspin⟩ := (doDefaultHandler_exec .idle highFrame Exn.pageFault.msg).2 hneg
  rw [doHandlerPageFault, hspin] at hexec
  cases hexec

lemma length_decNumber (v : BitVec 32) : (decNumber v).length ≤ 11 := by
  have hlt := BitVec.toInt_lt (x := v)
  have hle := BitVec.le_toInt (x := v)
  have habs : v.toInt.natAbs < 10 ^ 10 := by omega
  have hnum := length_numeral_le (b := 10) (by decide) (by decide) habs
  rw [decNumber, decimalNumeral, List.length_append, List.length_map]
  split
  · rw [List.length_singleton]
    omega
  · rw [List.length_nil]
    omega

lemma length_hexNumber (v : BitVec 32) : (hexNumber v).length ≤ 8 := by
  have hlt : v.toNat < 16 ^ 8 := v.isLt
  rw [hexNumber, hexNumeral, List.length_map]
  exact length_numeral_le (by decide) (by decide) hlt

lemma length_msg (e : Exn) : e.msg.bytes.length ≤ 38 := by
  cases e <;> decide

lemma dumpLines_fit (frame : ExceptionFrame) :
    (∀ n ∈ frame.dumpLines.map List.length, n < 128) ↔ frame.digits ≤ 56 := by
  have hirq : (fieldText decNumber frame.irqFields).length < 128 := by
    rw [length_fieldText]
    have hnum := length_decNumber frame.num
    have herror := length_decNumber frame.errorCode
    simp [ExceptionFrame.irqFields, lit]
    omega
  have hsegments : (fieldText decNumber frame.segmentFields ++ lit "\r").length < 128 := by
    rw [List.length_append, length_fieldText]
    have hcs := length_decNumber frame.cs
    have hds := length_decNumber frame.ds
    have hes := length_decNumber frame.es
    have hfs := length_decNumber frame.fs
    have hgs := length_decNumber frame.gs
    simp [ExceptionFrame.segmentFields, lit]
    omega
  have hregisters : (fieldText hexNumber frame.registerFields ++ lit "\r").length =
      71 + frame.digits := by
    rw [List.length_append, length_fieldText]
    simp [ExceptionFrame.digits, ExceptionFrame.registerFields, lit]
    omega
  have heip : (fieldText hexNumber frame.eipFields).length < 128 := by
    rw [length_fieldText]
    have heip := length_hexNumber frame.eip
    have heflags := length_hexNumber frame.eflags
    simp [ExceptionFrame.eipFields, lit]
    omega
  rw [ExceptionFrame.dumpLines]
  simp only [List.map_cons, List.map_nil, List.forall_mem_cons, List.not_mem_nil,
    false_implies, implies_true, and_true, hirq, hsegments, heip, true_and, hregisters]
  omega

lemma printable_of_fields {frame : ExceptionFrame} (h : ∀ v ∈ frame.fields, 0 ≤ v.toInt) :
    frame.Printable := by
  intro f hf
  refine h f.2 ?_
  simp only [ExceptionFrame.registerFields, ExceptionFrame.eipFields, List.mem_append,
    List.mem_cons, List.not_mem_nil, or_false] at hf
  rcases hf with (rfl | rfl | rfl | rfl | rfl | rfl | rfl | rfl) | rfl | rfl <;>
    simp [ExceptionFrame.fields]

/-- With no negative field every handler halts, after five calls that format. None of them
writes behind its buffer exactly when the eight general registers have 56 hexadecimal digits
or less together. -/
theorem dump_fits_iff (e : Exn) (frame : ExceptionFrame) (s : Console)
    (h : ∀ v ∈ frame.fields, 0 ≤ v.toInt) :
    ∃ s' bufs, (e.handler frame).exec s = (.error .halt, s') ∧ s'.strBufs = s.strBufs ++ bufs ∧
      bufs.length = 5 ∧
      ((∀ b ∈ bufs, ∀ w ∈ b.writes, w < 128) ↔ frame.digits ≤ 56) := by
  obtain ⟨s', hexec, hprints⟩ := (doDefaultHandler_exec s frame e.msg).1 (printable_of_fields h)
  obtain ⟨bufs, hbufs, hlen, hwrites⟩ := hprints.writes_lt 128
  have hmsg := length_msg e
  refine ⟨s', bufs, by rw [e.handler_eq, hexec], hbufs, hlen, ?_⟩
  rw [hwrites, List.forall_mem_cons, dumpLines_fit]
  exact and_iff_right (by omega)

/-- A handler prints the whole dump out of buffers that hold its lines exactly when no register
that it prints with `%x` has its highest bit set and the general registers are short enough. -/
lemma dump_reports_iff (frame : ExceptionFrame) (e : Exn) (s : Console) :
    (∃ s' bufs, (doDefaultHandler frame e.msg).exec s = (.error .halt, s') ∧
      s'.line = s.line ++ dumpText frame e.msg ∧ s'.strBufs = s.strBufs ++ bufs ∧
      ∀ b ∈ bufs, ∀ w ∈ b.writes, w < 128) ↔ frame.Printable ∧ frame.digits ≤ 56 := by
  obtain ⟨hhalts, hspins⟩ := doDefaultHandler_exec s frame e.msg
  have hmsg := length_msg e
  have hfits : ∀ {bufs : List CharBuf}, ((∀ b ∈ bufs, ∀ w ∈ b.writes, w < 128) ↔
      ∀ n ∈ (24 + e.msg.bytes.length) :: frame.dumpLines.map List.length, n < 128) →
      ((∀ b ∈ bufs, ∀ w ∈ b.writes, w < 128) ↔ frame.digits ≤ 56) := by
    intro bufs h
    rw [h, List.forall_mem_cons, dumpLines_fit]
    exact and_iff_right (by omega)
  constructor
  · rintro ⟨s', bufs, hexec, -, hbufs, hwrites⟩
    have hprintable : frame.Printable := by
      by_contra hno
      obtain ⟨s₁, hspin⟩ := hspins hno
      rw [hspin] at hexec
      cases hexec
    obtain ⟨s₁, hexec₁, hprints⟩ := hhalts hprintable
    obtain ⟨bufs₁, hbufs₁, -, hwrites₁⟩ := hprints.writes_lt 128
    have hsame : s' = s₁ := congrArg Prod.snd (hexec.symm.trans hexec₁)
    rw [hsame, hbufs₁] at hbufs
    rw [← List.append_cancel_left hbufs] at hwrites
    exact ⟨hprintable, (hfits hwrites₁).mp hwrites⟩
  · rintro ⟨hprintable, hdigits⟩
    obtain ⟨s', hexec, hprints⟩ := hhalts hprintable
    obtain ⟨bufs, hbufs, -, hwrites⟩ := hprints.writes_lt 128
    exact ⟨s', bufs, hexec, hprints.line, hbufs, (hfits hwrites).mpr hdigits⟩

/-- Registers that hold addresses of the kernel image. -/
def lowFrame : ExceptionFrame := { highFrame with eax := 0x12345 }

lemma nonneg_of_all {vs : List (BitVec 32)} (h : vs.all fun v => decide (0 ≤ v.toInt)) :
    ∀ v ∈ vs, 0 ≤ v.toInt := fun v hv => of_decide_eq_true (List.all_eq_true.mp h v hv)

theorem dump_fits_low : ∃ s' bufs, (doHandlerPageFault lowFrame).exec .idle = (.error .halt, s') ∧
    s'.strBufs = bufs ∧ ∀ b ∈ bufs, ∀ w ∈ b.writes, w < 128 := by
  obtain ⟨s', bufs, hexec, hbufs, -, hiff⟩ :=
    dump_fits_iff .pageFault lowFrame .idle (nonneg_of_all (by decide))
  exact ⟨s', bufs, hexec, hbufs, hiff.mpr (by decide +kernel)⟩

/-- Eight registers of eight digits each, as a pointer above 256 MiB has. -/
def wideFrame : ExceptionFrame :=
  { highFrame with
    eax := 0x10000000, ebx := 0x10000000, ecx := 0x10000000, edx := 0x10000000
    edi := 0x10000000, esi := 0x10000000, ebp := 0x10000000, esp := 0x10000000 }

/-- The line of the registers has 135 characters. -/
theorem dump_overruns_wide : ∃ s' bufs,
    (doHandlerPageFault wideFrame).exec .idle = (.error .halt, s') ∧ s'.strBufs = bufs ∧
      ¬ ∀ b ∈ bufs, ∀ w ∈ b.writes, w < 128 := by
  have hfields : ∀ v ∈ wideFrame.fields, 0 ≤ v.toInt := nonneg_of_all (by decide)
  obtain ⟨s', hexec, hprints⟩ :=
    (doDefaultHandler_exec .idle wideFrame Exn.pageFault.msg).1 (printable_of_fields hfields)
  obtain ⟨bufs, hbufs, -, hwrites⟩ := hprints.writes_lt 128
  refine ⟨s', bufs, hexec, hbufs, fun hall => ?_⟩
  have hfit := (dumpLines_fit wideFrame).mp (List.forall_mem_cons.mp (hwrites.mp hall)).2
  exact absurd hfit (by decide +kernel)

end OsToyI386
