import Chip8.Options.Reading
import Chip8.Text.Control

/-!
# The command line

The program takes the path of a ROM, five options with a value, and a switch:

    [--ips N] [--scale N] [--fg COLOUR] [--bg COLOUR] [--mute] [--seed N] ROM

Arguments are taken from left to right.  A value may stand behind its option as
an argument of its own, unless it starts with a dash, or behind an equals sign.
After `--` there are no more options.  Each may be given once.

A value that is an argument of its own, and likewise the ROM, is held back
(`Pending`) and looked at when the next argument that is understood, or the end
of the line, settles it.  An argument that is not understood is reported at
once, and so comes before what may be wrong with a value held back.

* `CommandLine.parse` — the whole line;
* `Refusal` — why there is nothing to run, with text and exit code.
-/

namespace Chip8

/-- The options that take a value. -/
inductive Setting where
  | ips | scale | fg | bg | seed
  deriving DecidableEq, Repr

namespace Setting

/-- The option of a name. -/
def ofName? : String → Option Setting
  | "ips" => some .ips
  | "scale" => some .scale
  | "fg" => some .fg
  | "bg" => some .bg
  | "seed" => some .seed
  | _ => none

/-- An option and its value, as reported to the user. -/
def label : Setting → String
  | .ips => "--ips <IPS>"
  | .scale => "--scale <SCALE>"
  | .fg => "--fg <FG>"
  | .bg => "--bg <BG>"
  | .seed => "--seed <SEED>"

end Setting

/-- The options that take none. -/
inductive Switch where
  | mute | help | version
  deriving DecidableEq, Repr

namespace Switch

/-- The option of a name. -/
def ofName? : String → Option Switch
  | "mute" => some .mute
  | "help" => some .help
  | "version" => some .version
  | _ => none

/-- The option of a letter. -/
def ofLetter? : Char → Option Switch
  | 'h' => some .help
  | 'V' => some .version
  | _ => none

/-- An option as reported to the user. -/
def label : Switch → String
  | .mute => "--mute"
  | .help => "--help"
  | .version => "--version"

end Switch

/-- Why a command line gives nothing to run. -/
inductive Refusal where
  /-- The user asked for help. -/
  | help
  /-- The user asked for the version. -/
  | version
  /-- An argument is no option, or there is a ROM already. -/
  | unknownArgument (argument : String)
  /-- The value of an option cannot be read. -/
  | invalidValue (setting : Setting) (value : String) (reason : ReadingError)
  /-- An option has no value, or the ROM is empty. -/
  | missingValue (label : String)
  /-- An option without a value was given one. -/
  | unexpectedValue (switch : Switch) (value : String)
  /-- An option was given twice. -/
  | repeated (label : String)
  /-- There is no ROM. -/
  | missingRom
  deriving DecidableEq, Repr

namespace Refusal

/-- How a ROM is called in reports. -/
def romLabel : String := "<ROM>"

/-- The word that an error begins with. -/
def errorWord : String := "error:"

/-- What is wrong, for a terminal: options and what the user wrote are set off,
the reason for which a value was refused is not. -/
def sentence : Refusal → String
  | .help => "Run a CHIP-8 program in a window"
  | .version => "chip8-vm 0.1.0"
  | .unknownArgument argument => s!"unexpected argument '{emphasized argument}' found"
  | .invalidValue setting value reason =>
      s!"invalid value '{emphasized value}' for '{emphasized setting.label}': {reason.message}"
  | .missingValue label =>
      s!"a value is required for '{emphasized label}' but none was supplied"
  | .unexpectedValue switch value =>
      s!"unexpected value '{emphasized value}' for '{emphasized switch.label}' found; " ++
        "no more were expected"
  | .repeated label => s!"the argument '{emphasized label}' cannot be used multiple times"
  | .missingRom =>
      s!"the following required arguments were not provided:\n  {emphasized romLabel}"

/-- Whether the user got what was asked for. -/
def isAnswer : Refusal → Bool
  | .help | .version => true
  | _ => false

/-- Where an error points the user. -/
def hint : String :=
  s!"For more information, try '{emphasized Switch.help.label}'."

/-- The text of a refusal for a terminal. -/
def terminalText (r : Refusal) : String :=
  if r.isAnswer then s!"{r.sentence}\n"
  else s!"{emphasized errorWord} {r.sentence}\n\n{hint}\n"

/-- The text of a refusal without a terminal, as a whole. -/
def message (r : Refusal) : String :=
  plain .ends r.terminalText

/-- The text of a refusal as it is written to a stream without a terminal. -/
def written (r : Refusal) : String :=
  plain .suspends r.terminalText

/-- The first line of the text. -/
def headline (r : Refusal) : String :=
  firstLine r.message

/-- The exit code: 0 for an answer, 2 for an error. -/
def exitCode (r : Refusal) : UInt32 :=
  if r.isAnswer then 0 else 2

end Refusal

namespace CommandLine

/-- What is held back until the next argument. -/
inductive Pending where
  | nothing
  /-- An option, and its value once that has come. -/
  | setting (which : Setting) (value : Option String)
  /-- The path of the ROM. -/
  | rom (path : String)
  deriving DecidableEq, Repr

/-- What has been read of a command line. -/
structure Progress where
  ips : Option UInt32 := none
  scale : Option UInt8 := none
  fg : Option Color := none
  bg : Option Color := none
  seed : Option UInt64 := none
  mute : Bool := false
  rom : Option String := none
  /-- Whether an argument was taken for the ROM, settled or not. -/
  romSeen : Bool := false
  pending : Pending := .nothing
  deriving DecidableEq, Repr

namespace Progress

/-- Whether an option has been settled before. -/
def has (p : Progress) : Setting → Bool
  | .ips => p.ips.isSome
  | .scale => p.scale.isSome
  | .fg => p.fg.isSome
  | .bg => p.bg.isSome
  | .seed => p.seed.isSome

/-- Read the value of an option. -/
def store (p : Progress) (setting : Setting) (value : String) : Except ReadingError Progress :=
  match setting with
  | .ips => (readSpeed value).map fun v => { p with ips := some v }
  | .scale => (readScale value).map fun v => { p with scale := some v }
  | .fg => (readColor value).map fun v => { p with fg := some v }
  | .bg => (readColor value).map fun v => { p with bg := some v }
  | .seed => (readSeed value).map fun v => { p with seed := some v }

/-- Take an option with its value; it must not have come before. -/
def assign (p : Progress) (setting : Setting) (value : String) : Except Refusal Progress :=
  if p.has setting then .error (.repeated setting.label)
  else (p.store setting value).mapError (.invalidValue setting value)

/-- Look at what was held back. -/
def settle (p : Progress) : Except Refusal Progress :=
  match p.pending with
  | .nothing => .ok p
  | .setting setting none => .error (.missingValue setting.label)
  | .setting setting (some value) => { p with pending := .nothing }.assign setting value
  | .rom path =>
      if path = "" then .error (.missingValue Refusal.romLabel)
      else .ok { p with rom := some path, pending := .nothing }

/-- Take an option without a value. -/
def flip (p : Progress) : Switch → Except Refusal Progress
  | .help => .error .help
  | .version => .error .version
  | .mute => if p.mute then .error (.repeated Switch.mute.label) else .ok { p with mute := true }

/-- Take an argument that is no option: the ROM, unless there is one already. -/
def takePlain (p : Progress) (argument : String) : Except Refusal Progress :=
  if p.romSeen then .error (.unknownArgument argument)
  else p.settle.map fun p => { p with romSeen := true, pending := .rom argument }

/-- Take an option by its name, perhaps with a value behind an equals sign. -/
def takeLong (p : Progress) (name : String) (value : Option String) :
    Except Refusal Progress :=
  match Setting.ofName? name, Switch.ofName? name, value with
  | some setting, _, some value => do (← p.settle).assign setting value
  | some setting, _, none => p.settle.map fun p => { p with pending := .setting setting none }
  | none, some switch, some value => .error (.unexpectedValue switch value)
  | none, some switch, none => do (← p.settle).flip switch
  | none, none, _ => .error (.unknownArgument ("--" ++ name))

/-- Take options by their letters, one after the other. -/
def takeShort (p : Progress) : List Char → Except Refusal Progress
  | [] => .ok p
  | c :: cs =>
      match Switch.ofLetter? c with
      | some switch => do (← (← p.settle).flip switch).takeShort cs
      | none => .error (.unknownArgument (String.ofList ['-', c]))

/-- Take an argument that may be an option. -/
def take (p : Progress) (argument : String) : Except Refusal Progress :=
  match argument.toList with
  | '-' :: '-' :: name =>
      let (name, value) := name.span (· != '=')
      p.takeLong (String.ofList name) (value.tail?.map String.ofList)
  | '-' :: c :: cs => p.takeShort (c :: cs)
  | _ =>
      match p.pending with
      | .setting setting none => .ok { p with pending := .setting setting (some argument) }
      | _ => p.takePlain argument

/-- Take all arguments; after `--`, none of them is an option. -/
def takeAll (p : Progress) : List String → Except Refusal Progress
  | [] => .ok p
  | "--" :: rest => rest.foldlM takePlain p
  | argument :: rest => do (← p.take argument).takeAll rest

/-- The options that were read, with the defaults for the others. -/
def options (p : Progress) : Options :=
  let default : Options := {}
  { instructionsPerSecond := p.ips.getD default.instructionsPerSecond
    scale := p.scale.getD default.scale
    foreground := p.fg.getD default.foreground
    background := p.bg.getD default.background
    mute := p.mute
    seed := p.seed }

end Progress

/-- A command line that was understood. -/
structure Invocation where
  rom : String
  options : Options
  deriving DecidableEq, Repr

/-- Read the arguments of the program. -/
def parse (arguments : List String) : Except Refusal Invocation := do
  let p ← Progress.takeAll {} arguments
  let p ← p.settle
  match p.rom with
  | some rom => return { rom := rom, options := p.options }
  | none => throw .missingRom

end CommandLine

end Chip8
