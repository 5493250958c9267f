import Chip8.Error
import Chip8.Instruction.Form

/-!
# Traces and faults

A trace tells how far one step came: the address it started at, the word it
fetched there, and the instruction it decoded.  A fault is an error together
with the trace of the step that met it.
-/

namespace Chip8

/-- How far a step came. -/
structure Trace where
  address : Address
  opcode : Option Opcode := none
  instruction : Option Instruction := none
  deriving DecidableEq, Repr

namespace Trace

/-- The operands of the traced instruction; none where nothing was decoded. -/
def operands (t : Trace) : List UInt16 :=
  match t.instruction with
  | some i => i.operands
  | none => []

/-- The part of the text behind the address. -/
def detail (t : Trace) : String :=
  match t.opcode, t.instruction with
  | some word, some i =>
      let operands := ", ".intercalate (i.operands.map fun v => hex0x 1 v.toNat)
      s!"{hex 4 word.toNat} {i.form.mnemonic} [{operands}]"
  | some word, none => s!"{hex 4 word.toNat} ???"
  | none, _ => "<no fetch>"

/-- The trace on one line. -/
def text (t : Trace) : String :=
  s!"{hex0x 4 t.address.toNat}: {t.detail}"

end Trace

/-- An error and the step that met it. -/
structure Fault where
  trace : Trace
  cause : MachineError
  deriving DecidableEq, Repr

/-- The report of a fault. -/
def Fault.message (f : Fault) : String :=
  s!"halted at {f.trace.text}: {f.cause.message}"

end Chip8
