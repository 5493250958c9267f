import Chip8.Raster
import Mathlib.Algebra.BigOperators.Group.Finset.Piecewise
import Mathlib.Algebra.BigOperators.Group.Finset.Sigma
import Mathlib.Data.Nat.Count

/-!
# What a sprite does to the picture

Drawing turns cells over one by one, and a cell may come up more than once: a sprite
with more rows than the screen wraps onto itself.  What counts in the end is how often
each cell came up.

* `Raster.pixels_flipAll`, `Raster.flipAll_collides` — a list of cells to turn over
  acts through the number of times that each of them occurs in it;
* `spriteHits` — how many set pixels of a sprite fall on a pixel of the picture, and
  `count_spriteCells`, which ties it to the cells that are turned over;
* `Raster.pixel_paint_of_fits`, `Raster.paint_collides_of_fits` — what a sprite does to the
  picture that is no higher than the screen;
* `Raster.paint_by_hits` — the picture after drawing, and the collision, by the hits of
  each pixel, and what they come to for a sprite that fits on the screen.
-/

namespace Chip8

namespace Raster

/-- Turning one cell over leaves the others as they were. -/
theorem get_flip (r : Raster) (c d : Cell) :
    (r.flip c).pixels.get d = if c = d then !r.pixels.get d else r.pixels.get d :=
  r.pixels_flip c d

/-- A cell is turned over as often as it is listed. -/
theorem pixels_flipAll (r : Raster) (cells : List Cell) (d : Cell) :
    (r.flipAll cells).1.pixels.get d = (r.pixels.get d ^^ decide (cells.count d % 2 = 1)) := by
  induction cells generalizing r with
  | nil => simp [flipAll]
  | cons c cells ih =>
      have hrest : (r.flipAll (c :: cells)).1.pixels.get d =
          ((r.flip c).pixels.get d ^^ decide (cells.count d % 2 = 1)) := ih (r.flip c)
      rw [hrest, get_flip]
      by_cases hcd : c = d
      · subst hcd
        rw [List.count_cons_self, if_pos rfl]
        have hflip : decide ((cells.count c + 1) % 2 = 1) = !decide (cells.count c % 2 = 1) := by
          rw [← decide_not]
          exact decide_eq_decide.2 (by omega)
        rw [hflip]
        simp
      · rw [List.count_cons_of_ne hcd, if_neg hcd]

/-- A lit cell is turned off on the way if it is listed at all, and a dark one if it is
listed again. -/
theorem flipAll_collides (r : Raster) (cells : List Cell) :
    (r.flipAll cells).2 = true ↔
      ∃ d : Cell, r.pixels.get d = true ∧ 1 ≤ cells.count d ∨
        r.pixels.get d = false ∧ 2 ≤ cells.count d := by
  induction cells generalizing r with
  | nil => simp [flipAll]
  | cons c cells ih =>
      have hfirst : (r.flipAll (c :: cells)).2 =
          (r.pixels.get c || ((r.flip c).flipAll cells).2) :=
        rfl
      have hcount (d : Cell) : (c :: cells).count d = cells.count d + if c = d then 1 else 0 := by
        by_cases hcd : c = d
        · subst hcd
          simp
        · simp [hcd]
      rw [hfirst, Bool.or_eq_true, ih]
      simp only [get_flip, hcount]
      constructor
      · rintro (hlit | ⟨d, hd⟩)
        · exact ⟨c, Or.inl ⟨hlit, by simp⟩⟩
        · refine ⟨d, ?_⟩
          by_cases hcd : c = d
          · subst hcd
            simp only [↓reduceIte] at hd ⊢
            cases hlit : r.pixels.get c with
            | true => exact Or.inl ⟨rfl, by omega⟩
            | false =>
                rw [hlit] at hd
                rcases hd with ⟨-, hd⟩ | ⟨hd, -⟩
                · exact Or.inr ⟨rfl, by omega⟩
                · cases hd
          · simpa [hcd] using hd
      · rintro ⟨d, hd⟩
        by_cases hcd : c = d
        · subst hcd
          simp only [↓reduceIte] at hd
          rcases hd with ⟨hlit, -⟩ | ⟨hdark, hd⟩
          · exact Or.inl hlit
          · right
            refine ⟨c, Or.inl ⟨?_, by omega⟩⟩
            simp [hdark]
        · right
          exact ⟨d, by simpa [hcd] using hd⟩

end Raster

/-- A set pixel of a sprite, in row `i` and column `j`, falls on the pixel at `(px, py)`
when the sprite is drawn with its top left corner at `(x, y)`. -/
def FallsOn (x y : Nat) (sprite : List UInt8) (px py i j : Nat) : Prop :=
  spriteBit (sprite.getD i 0) j = true ∧ (x + j) % 64 = px ∧ (y + i) % 32 = py

instance (x y : Nat) (sprite : List UInt8) (px py i j : Nat) :
    Decidable (FallsOn x y sprite px py i j) :=
  inferInstanceAs (Decidable (_ ∧ _))

/-- How many set pixels of a sprite fall on the pixel at `(px, py)`. -/
def spriteHits (x y : Nat) (sprite : List UInt8) (px py : Nat) : Nat :=
  ((Finset.range sprite.length ×ˢ Finset.range 8).filter fun (i, j) =>
    FallsOn x y sprite px py i j).card

/-- The sprite as a picture of its own, wrapped at the edges. -/
def wrappedSprite (x y : Nat) (sprite : List UInt8) (px py : Nat) : Bool :=
  (List.range sprite.length).any fun i =>
    (List.range 8).any fun j => decide (FallsOn x y sprite px py i j)

section Hits

variable {x y px py : Nat}

/-- A place falls on the cell that it wraps around to. -/
theorem cellAt_eq_iff (hx : px < 64) (hy : py < 32) :
    cellAt x y = cellAt px py ↔ x % 64 = px ∧ y % 32 = py := by
  simp only [cellAt, Fin.ext_iff]
  omega

/-- The hits of a sprite are those of its rows together. -/
theorem spriteHits_eq_sum (sprite : List UInt8) :
    spriteHits x y sprite px py =
      ∑ i ∈ Finset.range sprite.length, Nat.count (FallsOn x y sprite px py i) 8 := by
  unfold spriteHits
  rw [Finset.card_filter, Finset.sum_product]
  refine Finset.sum_congr rfl fun i _ => ?_
  rw [Nat.count_eq_card_filter_range, Finset.card_filter]

/-- The first row hits by itself, and the rows below as a sprite one row further down. -/
theorem spriteHits_cons (row : UInt8) (rows : List UInt8) :
    spriteHits x y (row :: rows) px py =
      Nat.count (FallsOn x y (row :: rows) px py 0) 8 + spriteHits x (y + 1) rows px py := by
  have hbelow (i : Nat) : FallsOn x y (row :: rows) px py (i + 1) =
      FallsOn x (y + 1) rows px py i := by
    funext j
    simp only [FallsOn, List.getD_cons_succ, Nat.add_assoc, Nat.add_comm 1 i]
  rw [spriteHits_eq_sum, List.length_cons, Finset.sum_range_succ', Nat.add_comm]
  simp only [hbelow, spriteHits_eq_sum]

/-- The cells of a row list each cell as often as set pixels of the row fall on it. -/
theorem count_rowCells (hx : px < 64) (hy : py < 32) (row : UInt8) (rows : List UInt8) :
    (rowCells x y row).count (cellAt px py) =
      Nat.count (FallsOn x y (row :: rows) px py 0) 8 := by
  unfold rowCells Nat.count
  rw [List.count_eq_countP, List.countP_map, List.countP_filter]
  refine List.countP_congr fun j _ => ?_
  simp [FallsOn, cellAt_eq_iff hx hy, and_comm]

/-- The cells of a sprite list each cell as often as set pixels fall on it. -/
theorem count_spriteCells (hx : px < 64) (hy : py < 32) (sprite : List UInt8) :
    (spriteCells x y sprite).count (cellAt px py) = spriteHits x y sprite px py := by
  induction sprite generalizing y with
  | nil => rfl
  | cons row rows ih =>
      rw [spriteCells, List.count_append, count_rowCells hx hy row rows, ih, spriteHits_cons]

/-- A pixel is hit if and only if the wrapped sprite has it. -/
theorem spriteHits_pos_iff (sprite : List UInt8) :
    1 ≤ spriteHits x y sprite px py ↔ wrappedSprite x y sprite px py = true := by
  unfold spriteHits wrappedSprite
  rw [Nat.succ_le_iff, Finset.card_pos]
  simp only [List.any_eq_true, List.mem_range, decide_eq_true_eq]
  constructor
  · rintro ⟨⟨i, j⟩, hmem⟩
    simp only [Finset.mem_filter, Finset.mem_product, Finset.mem_range] at hmem
    exact ⟨i, hmem.1.1, j, hmem.1.2, hmem.2⟩
  · rintro ⟨i, hi, j, hj, hfalls⟩
    refine ⟨(i, j), ?_⟩
    simp only [Finset.mem_filter, Finset.mem_product, Finset.mem_range]
    exact ⟨⟨hi, hj⟩, hfalls⟩

/-- A sprite that fits on the screen does not fall onto itself. -/
theorem spriteHits_le_one {sprite : List UInt8} (hfits : sprite.length ≤ 32) :
    spriteHits x y sprite px py ≤ 1 := by
  unfold spriteHits
  rw [Finset.card_le_one]
  rintro ⟨i, j⟩ hmem ⟨i', j'⟩ hmem'
  simp only [Finset.mem_filter, Finset.mem_product, Finset.mem_range] at hmem hmem'
  obtain ⟨⟨hi, hj⟩, -, hcolumn, hrow⟩ := hmem
  obtain ⟨⟨hi', hj'⟩, -, hcolumn', hrow'⟩ := hmem'
  have hsameRow : i = i' := by omega
  have hsameColumn : j = j' := by omega
  rw [hsameRow, hsameColumn]

end Hits

namespace Raster

section Paint

variable (r : Raster) (x y : UInt8) (sprite : List UInt8)

/-- A pixel is turned over if it is hit an odd number of times. -/
theorem pixel_paint (px : Fin 64) (py : Fin 32) :
    (r.paint x y sprite).1.pixel px py =
      (r.pixel px py ^^ decide (spriteHits x.toNat y.toNat sprite px py % 2 = 1)) := by
  rw [← count_spriteCells px.isLt py.isLt sprite]
  exact r.pixels_flipAll _ (cellAt px py)

/-- Every cell has a column and a row. -/
theorem exists_eq_cellAt (c : Cell) : ∃ (px : Fin 64) (py : Fin 32), c = cellAt px py := by
  refine ⟨⟨c.val % 64, by omega⟩, ⟨c.val / 64, by omega⟩, ?_⟩
  simp only [cellAt, Fin.ext_iff]
  omega

/-- A drawing collides if it hits a lit pixel, or a dark one twice. -/
theorem paint_collides :
    (r.paint x y sprite).2 = true ↔ ∃ (px : Fin 64) (py : Fin 32),
      r.pixel px py = true ∧ 1 ≤ spriteHits x.toNat y.toNat sprite px py ∨
        r.pixel px py = false ∧ 2 ≤ spriteHits x.toNat y.toNat sprite px py := by
  unfold paint
  rw [flipAll_collides]
  constructor
  · rintro ⟨d, hd⟩
    obtain ⟨px, py, rfl⟩ := exists_eq_cellAt d
    rw [count_spriteCells px.isLt py.isLt] at hd
    exact ⟨px, py, hd⟩
  · rintro ⟨px, py, hd⟩
    rw [← count_spriteCells px.isLt py.isLt] at hd
    exact ⟨cellAt px py, hd⟩

variable {sprite}

/-- A sprite that is no higher than the screen turns over the pixels that it wraps onto. -/
theorem pixel_paint_of_fits (hfits : sprite.length ≤ 32) (px : Fin 64) (py : Fin 32) :
    (r.paint x y sprite).1.pixel px py =
      (r.pixel px py ^^ wrappedSprite x.toNat y.toNat sprite px py) := by
  have hle : spriteHits x.toNat y.toNat sprite px py ≤ 1 := spriteHits_le_one hfits
  have hodd : spriteHits x.toNat y.toNat sprite px py % 2 = 1 ↔
      wrappedSprite x.toNat y.toNat sprite px py = true := by
    rw [← spriteHits_pos_iff]
    omega
  rw [pixel_paint]
  simp only [hodd, Bool.decide_eq_true]

/-- A sprite that is no higher than the screen collides where it meets a lit pixel. -/
theorem paint_collides_of_fits (hfits : sprite.length ≤ 32) :
    (r.paint x y sprite).2 = true ↔ ∃ (px : Fin 64) (py : Fin 32),
      r.pixel px py = true ∧ wrappedSprite x.toNat y.toNat sprite px py = true := by
  rw [paint_collides]
  refine exists_congr fun px => exists_congr fun py => ?_
  have hle : spriteHits x.toNat y.toNat sprite px py ≤ 1 := spriteHits_le_one hfits
  rw [← spriteHits_pos_iff]
  constructor
  · intro hhit
    obtain hlit | ⟨-, htwice⟩ := hhit
    · exact hlit
    · omega
  · exact Or.inl

end Paint

/-- **Drawing by hits.**  After a sprite of any height has been drawn, a pixel is as
before or turned over, by whether the number of set pixels that fell on it is even or
odd.  The drawing collided if one fell on a lit pixel, or two fell on a dark one.  Of a
sprite that fits on the screen no two fall on one pixel: the picture is then the old one
exclusive or the wrapped sprite, and it collided if the two overlapped. -/
theorem paint_by_hits (r : Raster) (x y : UInt8) (sprite : List UInt8) :
    (∀ (px : Fin 64) (py : Fin 32), (r.paint x y sprite).1.pixel px py =
      (r.pixel px py ^^ decide (spriteHits x.toNat y.toNat sprite px py % 2 = 1))) ∧
    ((r.paint x y sprite).2 = true ↔ ∃ (px : Fin 64) (py : Fin 32),
      r.pixel px py = true ∧ 1 ≤ spriteHits x.toNat y.toNat sprite px py ∨
        r.pixel px py = false ∧ 2 ≤ spriteHits x.toNat y.toNat sprite px py) ∧
    (sprite.length ≤ 32 →
      (∀ (px : Fin 64) (py : Fin 32), (r.paint x y sprite).1.pixel px py =
        (r.pixel px py ^^ wrappedSprite x.toNat y.toNat sprite px py)) ∧
      ((r.paint x y sprite).2 = true ↔ ∃ (px : Fin 64) (py : Fin 32),
        r.pixel px py = true ∧ wrappedSprite x.toNat y.toNat sprite px py = true)) := by
  refine ⟨r.pixel_paint x y sprite, r.paint_collides x y sprite, ?_⟩
  intro hfits
  exact ⟨r.pixel_paint_of_fits x y hfits, r.paint_collides_of_fits x y hfits⟩

/-- A dark picture but for its top left pixel. -/
def cornerDot : Raster :=
  blank.flip (cellAt 0 0)

/-- Two rows that overlap the corner dot when they wrap at both edges. -/
def cornerSprite : List UInt8 := [0x81, 0x3C]

/-- Drawn at the bottom right, the sprite comes back at the top left: it turns the dot
there off, which counts as a collision, and lights the pixels beside it. -/
theorem cornerSprite_collides :
    cornerSprite.length ≤ 32 ∧ (cornerDot.paint 62 31 cornerSprite).2 = true ∧
      (cornerDot.paint 62 31 cornerSprite).1.pixel (0 : Fin 64) (0 : Fin 32) = false ∧
      (cornerDot.paint 62 31 cornerSprite).1.pixel (3 : Fin 64) (0 : Fin 32) = true ∧
      (cornerDot.paint 62 31 cornerSprite).1.pixel (5 : Fin 64) (31 : Fin 32) = true := by
  have hfits : cornerSprite.length ≤ 32 := by decide
  have hdot (px py : Nat) : cornerDot.pixel px py = decide (cellAt 0 0 = cellAt px py) := by
    unfold pixel cornerDot
    rw [pixels_flip]
    by_cases hc : cellAt 0 0 = cellAt px py
    · simp [hc, blank]
    · simp [hc, blank]
  obtain ⟨-, -, hpaint⟩ := cornerDot.paint_by_hits 62 31 cornerSprite
  obtain ⟨hpixel, hcollides⟩ := hpaint hfits
  refine ⟨hfits, hcollides.2 ⟨0, 0, ?_, by decide⟩, ?_, ?_, ?_⟩
  · rw [hdot]
    decide
  · rw [hpixel, hdot]
    decide
  · rw [hpixel, hdot]
    decide
  · rw [hpixel, hdot]
    decide

end Raster

end Chip8
