import Chip8.Proofs.Guarded

/-!
# Guarded drawing

A sprite is drawn bit by bit: each row is shifted down by the place of its bit, the
column and the line are counted from the corner of the sprite, and the cell of the
picture is taken out of the coordinates wrapped at the edges.  No part of that can go
wrong for a sprite that a program can draw, and what comes of the bits one by one is
what comes of turning over the cells of the sprite.

* `Guarded.pixel_eq`, `Guarded.plot_eq` — a cell;
* `Guarded.paintRow_eq`, `Guarded.paint_eq` — a row and a sprite.
-/

namespace Chip8.Guarded

/-- The number of a cell, with both coordinates wrapped. -/
def cellIndex (x y : Nat) : Option Nat := do
  let line ← mul wordBits (y % Raster.height) Raster.width
  add wordBits line (x % Raster.width)

def pixel (r : Raster) (x y : Nat) : Option Bool := do
  let cell ← cellIndex x y
  get r.pixels cell

def plot (r : Raster) (x y : Nat) (bit : Bool) : Option (Raster × Bool) := do
  let cell ← cellIndex x y
  let previous ← get r.pixels cell
  let pixels ← set r.pixels cell (previous ^^ bit)
  some ({ pixels := pixels, dirty := r.dirty || bit }, previous && bit)

/-- Draw the bits with the given numbers of a row `i` below the corner of its sprite. -/
def paintRow (x y i : Nat) (row : UInt8) : List Nat → Raster → Option (Raster × Bool)
  | [], r => some (r, false)
  | j :: js, r => do
      let places ← sub 7 j
      let shifted ← shiftRight 8 row.toNat places
      let column ← add wordBits x j
      let line ← add wordBits y i
      let (r', hit) ← plot r column line (shifted &&& 1 == 1)
      let (r'', hits) ← paintRow x y i row js r'
      some (r'', hit || hits)

def paintRows (x y : Nat) : Nat → List UInt8 → Raster → Option (Raster × Bool)
  | _, [], r => some (r, false)
  | i, row :: rows, r => do
      let (r', hit) ← paintRow x y i row (List.range 8) r
      let (r'', hits) ← paintRows x y (i + 1) rows r'
      some (r'', hit || hits)

def paint (r : Raster) (x y : UInt8) (sprite : List UInt8) : Option (Raster × Bool) :=
  paintRows x.toNat y.toNat 0 sprite r

/-- The index of a cell can be computed for any place. -/
theorem cellIndex_eq (x y : Nat) : cellIndex x y = some (cellAt x y).val := by
  have hfits : y % 32 * 64 + x % 64 < 2048 := (cellAt x y).isLt
  have hword : 2048 < 2 ^ wordBits := by decide
  have hline : mul wordBits (y % Raster.height) Raster.width = some (y % 32 * 64) :=
    mul_eq (Nat.lt_trans (Nat.lt_of_le_of_lt (Nat.le_add_right _ _) hfits) hword)
  rw [cellIndex, hline]
  exact add_eq (Nat.lt_trans hfits hword)

/-- A pixel can be read anywhere. -/
theorem pixel_eq (r : Raster) (x y : Nat) : pixel r x y = some (r.pixel x y) := by
  rw [pixel, cellIndex_eq]
  exact get_eq (cellAt x y).isLt

/-- A pixel can be drawn anywhere. -/
theorem plot_eq (r : Raster) (x y : Nat) (bit : Bool) : plot r x y bit = some (r.plot x y bit) := by
  unfold plot
  rw [cellIndex_eq]
  simp only [Option.bind_eq_bind, Option.bind_some, get_eq (cellAt x y).isLt,
    set_eq (cellAt x y).isLt]
  cases bit with
  | false => simp [Raster.plot]
  | true => simp [Raster.plot, Raster.flipAll, Raster.flip]

/-- The bit of a row counted from the right is the bit counted from the left. -/
theorem and_one_eq_spriteBit (row : UInt8) (j : Nat) :
    (row.toNat >>> (7 - j) &&& 1 == 1) = spriteBit row j := by
  rw [spriteBit, Nat.testBit, Nat.and_comm, Nat.one_and_eq_mod_two]
  rcases Nat.mod_two_eq_zero_or_one (row.toNat >>> (7 - j)) with hbit | hbit
  · simp [hbit]
  · simp [hbit]

/-- A row of a sprite is drawn pixel by pixel without going wrong.  A bit that is not set
plots nothing, and its cell is not listed either. -/
theorem paintRow_eq {x y i : Nat} (row : UInt8) {js : List Nat} (hjs : ∀ j ∈ js, j < 8)
    (hx : x + 8 ≤ 2 ^ wordBits) (hy : y + i < 2 ^ wordBits) (r : Raster) :
    paintRow x y i row js r =
      some (r.flipAll ((js.filter (spriteBit row)).map fun j => cellAt (x + j) (y + i))) := by
  induction js generalizing r with
  | nil => rfl
  | cons j js ih =>
      have hj : j < 8 := hjs j List.mem_cons_self
      have hplaces : sub 7 j = some (7 - j) := sub_eq (Nat.le_of_lt_succ hj)
      have hshift : shiftRight 8 row.toNat (7 - j) = some (row.toNat >>> (7 - j)) :=
        shiftRight_eq (by omega)
      have hcolumn : add wordBits x j = some (x + j) := add_eq (by omega)
      have hrest := ih fun j' h => hjs j' (List.mem_cons_of_mem j h)
      simp only [paintRow, hplaces, hshift, hcolumn, add_eq hy, plot_eq, and_one_eq_spriteBit,
        hrest, Option.bind_eq_bind, Option.bind_some]
      cases hbit : spriteBit row j with
      | false => simp [Raster.plot, hbit]
      | true => simp [Raster.plot, Raster.flipAll, hbit]

/-- The rows of a sprite are drawn one after the other without going wrong. -/
theorem paintRows_eq {x y i : Nat} {rows : List UInt8} (hx : x + 8 ≤ 2 ^ wordBits)
    (hy : y + (i + rows.length) ≤ 2 ^ wordBits) (r : Raster) :
    paintRows x y i rows r = some (r.flipAll (spriteCells x (y + i) rows)) := by
  induction rows generalizing i r with
  | nil => rfl
  | cons row rows ih =>
      rw [List.length_cons] at hy
      have hrow : paintRow x y i row (List.range 8) r =
          some (r.flipAll (rowCells x (y + i) row)) :=
        paintRow_eq row (fun j hj => List.mem_range.1 hj) hx (by omega) r
      have hrest := ih (i := i + 1) (by omega)
      simp only [paintRows, hrow, hrest, Option.bind_eq_bind, Option.bind_some, spriteCells,
        Raster.flipAll_append]
      rfl

/-- A sprite of at most 255 rows is drawn as the plain operation draws it. -/
theorem paint_eq (r : Raster) (x y : UInt8) {sprite : List UInt8} (h : sprite.length < 256) :
    paint r x y sprite = some (r.paint x y sprite) := by
  have hx := x.toNat_lt
  have hy := y.toNat_lt
  have hword : 2 ^ wordBits = 4294967296 := rfl
  exact paintRows_eq (by omega) (by omega) r

end Chip8.Guarded
