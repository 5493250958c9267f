import Chip8.HostKey
import Chip8.Machine.Step
import Chip8.Session.Error

/-!
# Sessions

A session runs a program in a window, frame by frame.  In each frame it looks
at the keys of the host, lets the machine run unless it is paused, and shows
the picture.  The keys held in a frame, and the instructions and timer ticks
that the clock grants it, are data (`Frame`), so that a session is a function
of its frames.

* `Session.advance` — one frame;
* `Session.play` — frame after frame until the window closes, Escape is held or
  something fails;
* `Session.run` — a whole session, from loading the program on.
-/

namespace Chip8

/-- What one frame brings. -/
structure Frame where
  /-- The host keys that are held. -/
  keys : List HostKey
  /-- The number of instructions granted. -/
  steps : Nat
  /-- The number of timer ticks granted. -/
  ticks : Nat
  /-- Whether the window takes the picture. -/
  windowWorks : Bool := true
  deriving DecidableEq, Repr

/-- The colours of the window's cells, row by row. -/
abbrev Picture := Array Color

/-- A session between two frames. -/
structure Session where
  machine : Machine
  /-- Whether the machine is kept from running. -/
  paused : Bool := false
  /-- The keys as last reported to the machine. -/
  reported : Keypad := .idle
  /-- The picture in the window. -/
  picture : Picture
  /-- The host keys held in the frame before. -/
  keysBefore : List HostKey := []
  deriving DecidableEq, Repr

namespace Session

/-- A session at its start, with an empty picture. -/
def start (options : Options) (machine : Machine) : Session where
  machine := machine
  picture := Array.replicate (Raster.width * Raster.height) options.background

/-- Whether a key is held in this frame and was not in the one before. -/
def goesDown (s : Session) (f : Frame) (key : HostKey) : Bool :=
  f.keys.contains key && !s.keysBefore.contains key

/-- Change between paused and not when the pause key goes down. -/
def togglePause (s : Session) (f : Frame) : Session :=
  if s.goesDown f .p then { s with paused := !s.paused } else s

/-- Start the program over when the reset key goes down. -/
def resetOnKey (program : Array UInt8) (s : Session) (f : Frame) :
    Except SessionError Session :=
  if s.goesDown f .backspace then
    match s.machine.load program with
    | .ok machine => .ok { s with machine := machine }
    | .error e => .error (.machine e)
  else .ok s

/-- Report one key to the machine. -/
def deliver (m : Machine) : KeyEvent → Except MachineError Machine
  | .down code => m.keyDown code
  | .up code => m.keyUp code

/-- Report keys one after the other, up to the first that the machine refuses. -/
def deliverAll (m : Machine) : List KeyEvent → Machine × Option MachineError
  | [] => (m, none)
  | event :: events =>
      match deliver m event with
      | .ok m' => deliverAll m' events
      | .error e => (m, some e)

/-- The keypad keys that are held on the host in this frame. -/
def keypadOf (f : Frame) : Keypad :=
  .ofCodes (f.keys.filterMap HostKey.code?)

/-- Report to the machine the keypad keys that have changed. -/
def reportKeys (s : Session) (f : Frame) : Session × Option MachineError :=
  let now := keypadOf f
  let (machine, failure) := deliverAll s.machine (KeyEvent.between s.reported now)
  ({ s with machine := machine, reported := now }, failure)

/-- Let the machine run for a frame, unless it is paused. -/
def runMachine (s : Session) (f : Frame) : Session × Option Fault :=
  if s.paused then (s, none)
  else
    let (machine, failure) := s.machine.runFrame f.steps f.ticks
    ({ s with machine := machine }, failure)

/-- Paint the picture anew if the machine's may have changed. -/
def repaint (options : Options) (s : Session) : Session :=
  match s.machine.takeFrame with
  | (some raster, machine) =>
      { s with
        machine := machine
        picture := raster.render options.foreground options.background s.picture }
  | (none, machine) => { s with machine := machine }

/-- The beginning of a frame, up to the report of the keys: pause, reset, keys. -/
def beginFrame (program : Array UInt8) (s : Session) (f : Frame) :
    Session × Option SessionError :=
  let s := s.togglePause f
  match s.resetOnKey program f with
  | .error e => (s, some e)
  | .ok s =>
      let (s, failure) := s.reportKeys f
      ({ s with keysBefore := f.keys }, failure.map .machine)

/-- The rest of a frame: run, paint, show. -/
def endFrame (options : Options) (s : Session) (f : Frame) : Session × Option SessionError :=
  match s.runMachine f with
  | (s, some fault) => (s, some (.fault fault))
  | (s, none) =>
      (s.repaint options, if f.windowWorks then none else some (.window .notUpdated))

/-- One frame.  Without a failure the picture afterwards is what the window
shows. -/
def advance (options : Options) (program : Array UInt8) (s : Session) (f : Frame) :
    Session × Option SessionError :=
  match s.beginFrame program f with
  | (s, some e) => (s, some e)
  | (s, none) => s.endFrame options f

/-- What came of a session. -/
structure Playback where
  /-- The machine at the end. -/
  machine : Machine
  /-- The pictures shown, the first one first. -/
  shown : List Picture
  /-- Why the session failed, if it did. -/
  failure : Option SessionError
  deriving DecidableEq, Repr

/-- Whether the user leaves in this frame. -/
def ends (f : Frame) : Bool :=
  f.keys.contains .escape

/-- Play frames until there are no more, since the window was closed, or Escape
is held, or something fails. -/
def play (options : Options) (program : Array UInt8) (s : Session) : List Frame → Playback
  | [] => ⟨s.machine, [], none⟩
  | f :: fs =>
      if ends f then ⟨s.machine, [], none⟩
      else
        match s.advance options program f with
        | (s', some e) => ⟨s'.machine, [], some e⟩
        | (s', none) =>
            let rest := play options program s' fs
            { rest with shown := s'.picture :: rest.shown }

/-- The record of a whole session. -/
structure Report where
  /-- The window that was made, if one was. -/
  window : Option WindowSettings
  playback : Playback
  deriving DecidableEq, Repr

/-- A whole session: load the program, make a window, play the frames. -/
def run (options : Options) (program : Array UInt8) (windowOpens : Bool) (frames : List Frame)
    (m : Machine) : Report :=
  match m.load program with
  | .error e => ⟨none, ⟨m, [], some (.machine e)⟩⟩
  | .ok m =>
      if windowOpens then
        ⟨some (.ofOptions options), play options program (start options m) frames⟩
      else ⟨none, ⟨m, [], some (.window .notCreated)⟩⟩

end Session

end Chip8
