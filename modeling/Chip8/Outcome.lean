import Chip8.CommandLine
import Chip8.Session

/-!
# The outcome of the program

What the program leaves behind when it ends: an exit code and what it has
written.  A failure is reported as what was being done and, below it, the
chain of causes; several causes are numbered.
-/

namespace Chip8

/-- A failure reported by the operating system. -/
structure SystemError where
  code : Nat
  text : String
  deriving DecidableEq, Repr

/-- The text of a failure of the operating system, with its number. -/
def SystemError.message (e : SystemError) : String :=
  s!"{e.text} (os error {e.code})"

/-- How the program ends. -/
structure Outcome where
  code : UInt32 := 0
  output : String := ""
  errors : String := ""
  deriving DecidableEq, Repr

namespace Outcome

/-- One line for each cause; several are numbered from 0. -/
def causeLines : List String → List String
  | [cause] => ["    " ++ cause]
  | causes => causes.zipIdx.map fun (cause, i) => s!"    {i}: {cause}"

/-- The report of a failure: what was being done, and the chain of causes. -/
def report (doing : String) (causes : List String) : String :=
  let lines := "\n".intercalate (causeLines causes)
  s!"Error: {doing}\n\nCaused by:\n{lines}\n"

/-- The end of a program whose command line gives nothing to run.  An answer
goes to the output, an error to the errors. -/
def ofRefusal (r : Refusal) : Outcome :=
  if r.isAnswer then { code := r.exitCode, output := r.written }
  else { code := r.exitCode, errors := r.written }

/-- The end of a program that cannot read its ROM. -/
def ofUnreadable (rom : String) (e : SystemError) : Outcome :=
  { code := 1, errors := report s!"failed to read rom {rom}" [e.message] }

/-- The end of a program after its session. -/
def ofSession (rom : String) : Option SessionError → Outcome
  | none => {}
  | some e => { code := 1, errors := report s!"while running {rom}" e.chain }

end Outcome

end Chip8
