import Chip8.Options
import Chip8.Raster

/-!
# The window

What a session asks of the window system: a title, the size of the picture, the
enlargement, and how often the picture may change.
-/

namespace Chip8

/-- The enlargements that windows offer. -/
inductive Scale where
  | x1 | x2 | x4 | x8 | x16 | x32
  deriving DecidableEq, Repr

namespace Scale

/-- The enlargement for a factor; a factor that is not offered gives sixteen. -/
def ofFactor (factor : UInt8) : Scale :=
  match factor.toNat with
  | 1 => .x1
  | 2 => .x2
  | 4 => .x4
  | 8 => .x8
  | 32 => .x32
  | _ => .x16

/-- The name of an enlargement. -/
def name : Scale → String
  | .x1 => "X1"
  | .x2 => "X2"
  | .x4 => "X4"
  | .x8 => "X8"
  | .x16 => "X16"
  | .x32 => "X32"

end Scale

/-- A request for a window. -/
structure WindowSettings where
  title : String
  width : Nat
  height : Nat
  scale : Scale
  /-- Microseconds that at least pass between two pictures. -/
  refreshMicros : Nat
  deriving DecidableEq, Repr

/-- The window of a session: one cell for each pixel of the machine, and about
sixty pictures a second. -/
def WindowSettings.ofOptions (options : Options) : WindowSettings where
  title := "chip8-vm - ESC to exit, P to pause, BACKSPACE to reset"
  width := Raster.width
  height := Raster.height
  scale := .ofFactor options.scale
  refreshMicros := 16600

/-- What the window system can fail at. -/
inductive WindowError where
  /-- No window could be made. -/
  | notCreated
  /-- A picture could not be shown. -/
  | notUpdated
  deriving DecidableEq, Repr

/-- The text of a failure of the window system. -/
def WindowError.message : WindowError → String
  | .notCreated => "Failed to create window"
  | .notUpdated => "Failed to Update"

end Chip8
