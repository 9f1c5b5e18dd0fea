import OsToyI386.Properties.Dump
import OsToyI386.Properties.Vectors
import OsToyI386.Scheduler.Boot
import OsToyI386.Scheduler.Reports

/-!
# Exceptions are reported

From the gate over the stub to the serial port: what an interrupt of any vector but the timer's
leaves on the console is the dump of the interrupted registers.
-/

namespace OsToyI386

open Lib

/-- The number that goes into the frame: minus one for the default stub. -/
def reportedNumber (vector : ℕ) : ℕ :=
  if stubAt vector = .exn .unknown then 2 ^ 32 - 1 else vector

lemma pushesErrorCode_unknown {vector : ℕ} (h : ∀ x ∈ ownStubs, x.1 ≠ vector) :
    pushesErrorCode vector = false := by
  by_contra hcode
  have hlt : vector < 22 := by
    simp [pushesErrorCode] at hcode
    omega
  have hall : ∀ v < 22, pushesErrorCode v = true → ∃ x ∈ ownStubs, x.1 = v := by decide
  obtain ⟨x, hx, hxv⟩ := hall vector hlt (by simpa using hcode)
  exact h x hx hxv

lemma ownStubs_ne_unknown : ∀ x ∈ ownStubs, x.2 ≠ .exn .unknown := by decide

/-- The stub of a vector pushes the number it is reported under, and an error code where the
processor does not. -/
lemma reports_stubAt (vector : ℕ) : (stubAt vector).Reports (reportedNumber vector) ∧
    pushesErrorCode vector = pushesErrorCode (reportedNumber vector) := by
  rcases stubAt_cases vector with hmem | ⟨hstub, hne⟩
  · have hown : stubAt vector ≠ .exn .unknown := ownStubs_ne_unknown _ hmem
    rw [reportedNumber, if_neg hown]
    exact ⟨reports_of_ownStubs hmem, rfl⟩
  · rw [reportedNumber, if_pos hstub, hstub, pushesErrorCode_unknown hne, Stub.Reports]
    decide

lemma frame_stubAt (g : GateDesc) (errorCode handler ret : BitVec 32) (s : X86) (vector : ℕ) :
    let s' := (stubAt vector).enter handler ret (deliver g vector errorCode s)
    frameAt s'.mem s'.arg = trapFrame (reportedNumber vector) errorCode s := by
  intro s'
  obtain ⟨hreports, hcode⟩ := reports_stubAt vector
  have hsame : deliver g vector errorCode s = deliver g (reportedNumber vector) errorCode s := by
    rw [deliver, deliver, hcode]
  obtain ⟨-, harg, -, hstacked⟩ := frame_of_enter g errorCode handler ret s hreports
  rw [← hsame] at harg hstacked
  rw [harg]
  exact frameAt_of_stacked hstacked

end OsToyI386
