import OsToyI386.Tools.Format

/-!
# Exception handlers

`cpu/irq.c` up to the handlers: what a frame on the stack holds, the dump of its fields to
the log, and the handlers, which differ in their message only.
-/

namespace OsToyI386

/-- `exception_frame_t`. -/
structure ExceptionFrame where
  gs : BitVec 32
  fs : BitVec 32
  es : BitVec 32
  ds : BitVec 32
  edi : BitVec 32
  esi : BitVec 32
  ebp : BitVec 32
  esp : BitVec 32
  ebx : BitVec 32
  edx : BitVec 32
  ecx : BitVec 32
  eax : BitVec 32
  num : BitVec 32
  errorCode : BitVec 32
  eip : BitVec 32
  cs : BitVec 32
  eflags : BitVec 32
  deriving DecidableEq

def irqFormat : CString := ⟨lit "IRQ: %d, error code: %d", by decide, by decide⟩

def segmentsFormat : CString :=
  ⟨lit "CS: %d\r\n" ++ lit "DS: %d\r\n" ++ lit "ES: %d\r\n" ++ lit "SS: %d\r\n" ++
    lit "FS: %d\r\n" ++ lit "GS: %d\r", by decide, by decide⟩

def registersFormat : CString :=
  ⟨lit "EAX: 0x%x\r\n" ++ lit "EBX: 0x%x\r\n" ++ lit "ECX: 0x%x\r\n" ++ lit "EDX: 0x%x\r\n" ++
    lit "EDI: 0x%x\r\n" ++ lit "ESI: 0x%x\r\n" ++ lit "EBP: 0x%x\r\n" ++ lit "ESP: 0x%x\r",
    by decide, by decide⟩

def eipFormat : CString := ⟨lit "EIP: 0x%x\r\n" ++ lit "EFLAGS: 0x%x", by decide, by decide⟩

def happenedFormat : CString := ⟨lit "IRQ/EXCEPTION happened: %s", by decide, by decide⟩

/-- `dump_core_regs`: `DS` stands for `SS`. -/
def dumpCoreRegs (frame : ExceptionFrame) : Code Unit := do
  logPrintfln irqFormat [.int frame.num, .int frame.errorCode]
  logPrintfln segmentsFormat [.int frame.cs, .int frame.ds, .int frame.es, .int frame.ds,
    .int frame.fs, .int frame.gs]
  logPrintfln registersFormat [.int frame.eax, .int frame.ebx, .int frame.ecx, .int frame.edx,
    .int frame.edi, .int frame.esi, .int frame.ebp, .int frame.esp]
  logPrintfln eipFormat [.int frame.eip, .int frame.eflags]

/-- `do_default_handler`. -/
def doDefaultHandler (frame : ExceptionFrame) (msg : CString) : Code Unit := do
  logPrintln (lit "-------------")
  logPrintfln happenedFormat [.str msg]
  dumpCoreRegs frame
  logPrintln (lit "-------------")
  throw .halt

/-- The exceptions that have a handler. -/
inductive Exn
  | unknown
  | divider
  | debug
  | nmi
  | breakpoint
  | overflow
  | boundRange
  | invalidOpcode
  | deviceUnavailable
  | doubleFault
  | coprocessorSegmentOverrun
  | invalidTss
  | segmentNotPresent
  | stackSegmentFault
  | generalProtection
  | pageFault
  | fpuError
  | alignmentCheck
  | machineCheck
  | smdException
  | virtualException
  | controlProtectionException
  deriving DecidableEq

/-- The message that the handler of an exception passes on. -/
def Exn.msg : Exn → CString
  | unknown => ⟨lit "unknown exception", by decide, by decide⟩
  | divider => ⟨lit "divider exception", by decide, by decide⟩
  | debug => ⟨lit "Debug exception", by decide, by decide⟩
  | nmi => ⟨lit "NMI exception", by decide, by decide⟩
  | breakpoint => ⟨lit "breakpoint exception", by decide, by decide⟩
  | overflow => ⟨lit "overflow exception", by decide, by decide⟩
  | boundRange => ⟨lit "bound_range exception", by decide, by decide⟩
  | invalidOpcode => ⟨lit "invalid_opcode exception", by decide, by decide⟩
  | deviceUnavailable => ⟨lit "device_unavailable exception", by decide, by decide⟩
  | doubleFault => ⟨lit "double_fault exception", by decide, by decide⟩
  | coprocessorSegmentOverrun =>
    ⟨lit "coprocessor_segment_overrun exception", by decide, by decide⟩
  | invalidTss => ⟨lit "invalid_tss exception", by decide, by decide⟩
  | segmentNotPresent => ⟨lit "segment_not_present exception", by decide, by decide⟩
  | stackSegmentFault => ⟨lit "stack_segment_fault exception", by decide, by decide⟩
  | generalProtection => ⟨lit "general_protection exception", by decide, by decide⟩
  | pageFault => ⟨lit "page_fault exception", by decide, by decide⟩
  | fpuError => ⟨lit "fpu_fault exception", by decide, by decide⟩
  | alignmentCheck => ⟨lit "alignment_check exception", by decide, by decide⟩
  | machineCheck => ⟨lit "machine_check exception", by decide, by decide⟩
  | smdException => ⟨lit "smd_exception exception", by decide, by decide⟩
  | virtualException => ⟨lit "virtual_exception exception", by decide, by decide⟩
  | controlProtectionException =>
    ⟨lit "control_protection_exception exception", by decide, by decide⟩

/-! Each handler is called from its own stub. -/

section Handlers

variable (frame : ExceptionFrame)

def doHandlerUnknown : Code Unit := doDefaultHandler frame Exn.unknown.msg
def doHandlerDivider : Code Unit := doDefaultHandler frame Exn.divider.msg
def doHandlerDebug : Code Unit := doDefaultHandler frame Exn.debug.msg
def doHandlerNmi : Code Unit := doDefaultHandler frame Exn.nmi.msg
def doHandlerBreakpoint : Code Unit := doDefaultHandler frame Exn.breakpoint.msg
def doHandlerOverflow : Code Unit := doDefaultHandler frame Exn.overflow.msg
def doHandlerBoundRange : Code Unit := doDefaultHandler frame Exn.boundRange.msg
def doHandlerInvalidOpcode : Code Unit := doDefaultHandler frame Exn.invalidOpcode.msg
def doHandlerDeviceUnavailable : Code Unit := doDefaultHandler frame Exn.deviceUnavailable.msg
def doHandlerDoubleFault : Code Unit := doDefaultHandler frame Exn.doubleFault.msg
def doHandlerCoprocessorSegmentOverrun : Code Unit :=
  doDefaultHandler frame Exn.coprocessorSegmentOverrun.msg
def doHandlerInvalidTss : Code Unit := doDefaultHandler frame Exn.invalidTss.msg
def doHandlerSegmentNotPresent : Code Unit := doDefaultHandler frame Exn.segmentNotPresent.msg
def doHandlerStackSegmentFault : Code Unit := doDefaultHandler frame Exn.stackSegmentFault.msg
def doHandlerGeneralProtection : Code Unit := doDefaultHandler frame Exn.generalProtection.msg
def doHandlerPageFault : Code Unit := doDefaultHandler frame Exn.pageFault.msg
def doHandlerFpuError : Code Unit := doDefaultHandler frame Exn.fpuError.msg
def doHandlerAlignmentCheck : Code Unit := doDefaultHandler frame Exn.alignmentCheck.msg
def doHandlerMachineCheck : Code Unit := doDefaultHandler frame Exn.machineCheck.msg
def doHandlerSmdException : Code Unit := doDefaultHandler frame Exn.smdException.msg
def doHandlerVirtualException : Code Unit := doDefaultHandler frame Exn.virtualException.msg
def doHandlerControlProtectionException : Code Unit :=
  doDefaultHandler frame Exn.controlProtectionException.msg

end Handlers

/-- The function that the stub of an exception calls. -/
def Exn.handler : Exn → ExceptionFrame → Code Unit
  | unknown => doHandlerUnknown
  | divider => doHandlerDivider
  | debug => doHandlerDebug
  | nmi => doHandlerNmi
  | breakpoint => doHandlerBreakpoint
  | overflow => doHandlerOverflow
  | boundRange => doHandlerBoundRange
  | invalidOpcode => doHandlerInvalidOpcode
  | deviceUnavailable => doHandlerDeviceUnavailable
  | doubleFault => doHandlerDoubleFault
  | coprocessorSegmentOverrun => doHandlerCoprocessorSegmentOverrun
  | invalidTss => doHandlerInvalidTss
  | segmentNotPresent => doHandlerSegmentNotPresent
  | stackSegmentFault => doHandlerStackSegmentFault
  | generalProtection => doHandlerGeneralProtection
  | pageFault => doHandlerPageFault
  | fpuError => doHandlerFpuError
  | alignmentCheck => doHandlerAlignmentCheck
  | machineCheck => doHandlerMachineCheck
  | smdException => doHandlerSmdException
  | virtualException => doHandlerVirtualException
  | controlProtectionException => doHandlerControlProtectionException

lemma Exn.handler_eq (e : Exn) (frame : ExceptionFrame) :
    e.handler frame = doDefaultHandler frame e.msg := by
  cases e <;> rfl

end OsToyI386
