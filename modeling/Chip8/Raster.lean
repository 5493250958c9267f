/-!
# The raster

The picture of the machine: 64 by 32 pixels that are on or off, and a flag that
tells whether the picture may have changed since it was last taken.  Positions
wrap around at the edges.

A sprite is a column of bytes, each a row of eight pixels with the leftmost in
the highest bit.  `spriteCells` lists the cells that its set bits fall on, and
drawing turns these over one by one (`flipAll`).  The drawing collides when a
lit pixel is turned off on the way.
-/

namespace Chip8

/-- The place of a pixel, counted row by row from the top left. -/
abbrev Cell := Fin 2048

/-- The cell at column `x` and row `y`, wrapped at the edges. -/
def cellAt (x y : Nat) : Cell :=
  ⟨y % 32 * 64 + x % 64, by omega⟩

/-- Whether pixel `j` of a sprite row is set; pixel 0 is the leftmost. -/
def spriteBit (row : UInt8) (j : Nat) : Bool :=
  row.toNat.testBit (7 - j)

/-- The cells under the set bits of one sprite row whose left end is at column
`x` of row `y`. -/
def rowCells (x y : Nat) (row : UInt8) : List Cell :=
  ((List.range 8).filter (spriteBit row)).map fun j => cellAt (x + j) y

/-- The cells under the set bits of a sprite whose top left corner is at column
`x` of row `y`, row by row. -/
def spriteCells (x y : Nat) : List UInt8 → List Cell
  | [] => []
  | row :: rows => rowCells x y row ++ spriteCells x (y + 1) rows

/-- The pixels of the machine. -/
structure Raster where
  pixels : Vector Bool 2048
  /-- Whether the picture may have changed since it was last taken. -/
  dirty : Bool
  deriving DecidableEq, Repr

namespace Raster

/-- The number of columns. -/
def width : Nat := 64

/-- The number of rows. -/
def height : Nat := 32

/-- All pixels off.  The picture counts as changed, so that it gets shown. -/
def blank : Raster where
  pixels := Vector.replicate 2048 false
  dirty := true

/-- Turn all pixels off. -/
def clear (_ : Raster) : Raster :=
  blank

/-- Whether the pixel at column `x` and row `y` is lit. -/
def pixel (r : Raster) (x y : Nat) : Bool :=
  r.pixels[cellAt x y]

/-- Whether no pixel is lit. -/
def isBlank (r : Raster) : Bool :=
  r.pixels.all (!·)

/-- Turn one pixel over. -/
def flip (r : Raster) (c : Cell) : Raster where
  pixels := r.pixels.set c (!r.pixels[c])
  dirty := true

/-- Turn pixels over in order, and tell whether a lit one was turned off. -/
def flipAll (r : Raster) : List Cell → Raster × Bool
  | [] => (r, false)
  | c :: cs =>
      let lit := r.pixels[c]
      let (r', hit) := (r.flip c).flipAll cs
      (r', lit || hit)

/-- Turn the pixel at column `x` and row `y` over if `bit` is set, and tell
whether that turned it off. -/
def plot (r : Raster) (x y : Nat) (bit : Bool) : Raster × Bool :=
  if bit then r.flipAll [cellAt x y] else (r, false)

/-- Draw a sprite, and tell whether it collided. -/
def paint (r : Raster) (x y : UInt8) (sprite : List UInt8) : Raster × Bool :=
  r.flipAll (spriteCells x.toNat y.toNat sprite)

/-- The picture, if it may have changed since it was last taken, and the raster
with that change taken notice of. -/
def take (r : Raster) : Option Raster × Raster :=
  let seen := { r with dirty := false }
  (if r.dirty then some seen else none, seen)

/-- Colour the picture into a buffer: the first cells of the buffer, as many as
there are pixels, get the colour of their pixel, and the others stay. -/
def render (r : Raster) (foreground background : UInt32) (out : Array UInt32) : Array UInt32 :=
  out.mapIdx fun i old =>
    if h : i < 2048 then (if r.pixels[i] then foreground else background) else old

/-- The picture as 32 lines of `#` for lit and `.` for dark pixels. -/
def text (r : Raster) : String :=
  String.join <| (List.range height).map fun y =>
    String.ofList ((List.range width).map fun x => if r.pixel x y then '#' else '.') ++ "\n"

/-- Turning a pixel over changes that pixel alone. -/
theorem pixels_flip (r : Raster) (c d : Cell) :
    (r.flip c).pixels[d] = if c = d then !r.pixels[d] else r.pixels[d] := by
  by_cases h : c = d
  · subst h; simp [flip]
  · have : c.val ≠ d.val := fun e => h (Fin.ext e)
    simp [flip, h, this]

/-- Turning cells over and then more of them. -/
theorem flipAll_append (r : Raster) (cells more : List Cell) :
    r.flipAll (cells ++ more) = (((r.flipAll cells).1.flipAll more).1,
      (r.flipAll cells).2 || ((r.flipAll cells).1.flipAll more).2) := by
  induction cells generalizing r with
  | nil => rfl
  | cons c cells ih => simp only [List.cons_append, flipAll, ih, Bool.or_assoc]

end Raster

end Chip8
