import Chip8.Outcome

/-!
# The program

The whole program as a function of its arguments and of what it finds around
it: the files it can read, where random bytes come from, and the frames that
the window brings.
-/

namespace Chip8

/-- A machine whose random bytes come from the seed, if one is given. -/
def Machine.forOptions (options : Options) (entropy : Generator) : Machine :=
  match options.seed with
  | some seed => boot (.ofSeed seed)
  | none => boot entropy

/-- What the program finds around it. -/
structure Host where
  readRom : String → Except SystemError (Array UInt8)
  /-- The source of random bytes where no seed is given. -/
  entropy : Generator
  windowOpens : Bool
  frames : List Frame

namespace Program

/-- Run the program: how it ends, and the record of its session if it came that
far. -/
def run (arguments : List String) (host : Host) : Outcome × Option Session.Report :=
  match CommandLine.parse arguments with
  | .error refusal => (.ofRefusal refusal, none)
  | .ok invocation =>
      match host.readRom invocation.rom with
      | .error e => (.ofUnreadable invocation.rom e, none)
      | .ok program =>
          let machine := Machine.forOptions invocation.options host.entropy
          let report :=
            Session.run invocation.options program host.windowOpens host.frames machine
          (.ofSession invocation.rom report.playback.failure, some report)

end Program

end Chip8
