import Chip8.Proofs.SpriteHits

/-!
# Drawing one sprite over another

Drawing turns cells over, so a list of draws leaves each pixel as it was or turned over,
by how often the draws together have come to its cell.  Neither the order of the draws
nor a pair of equal ones counts.  The collisions do depend on the order, but like the
pixels they see a corner only as far as it is on the screen.

* `Raster.pixels_flipAll_congr` — the pixels depend on the parity of the number of times
  that each cell is listed;
* `Raster.paintAll_fst` — a list of draws turns over the cells of all of them;
* `spriteCells_congr`, `mem_spriteCells` — the cells of a sprite, from where its corner
  wraps to, and bit by bit;
* `Raster.paint_again_collides` — a sprite drawn again collides where it was dark before;
* `Raster.compositing_reversible` — what follows for lists of draws.
-/

namespace Chip8

/-- A sprite and where its top left corner is drawn. -/
structure Draw where
  x : UInt8
  y : UInt8
  sprite : List UInt8
  deriving DecidableEq, Repr

namespace Draw

/-- The cells that a draw turns over, each as often as it does. -/
def cells (d : Draw) : List Cell :=
  spriteCells d.x.toNat d.y.toNat d.sprite

/-- The same draw with its corner on the screen. -/
def wrapped (d : Draw) : Draw :=
  { d with x := d.x % 64, y := d.y % 32 }

end Draw

/-- Draw one sprite after the other, and tell of each whether it collided. -/
def Raster.paintAll (r : Raster) : List Draw → Raster × List Bool
  | [] => (r, [])
  | d :: draws =>
      let (r', hit) := r.paint d.x d.y d.sprite
      let (last, hits) := r'.paintAll draws
      (last, hit :: hits)

section Wrapping

variable {x x' y y' : Nat}

/-- A place beyond the edge is the place that it wraps around to. -/
theorem cellAt_congr (hx : x % 64 = x' % 64) (hy : y % 32 = y' % 32) :
    cellAt x y = cellAt x' y' := by
  simp only [cellAt, hx, hy]

/-- A row that starts beyond the edge lists the cells of the row that it wraps around to. -/
theorem rowCells_congr (hx : x % 64 = x' % 64) (hy : y % 32 = y' % 32) (row : UInt8) :
    rowCells x y row = rowCells x' y' row := by
  unfold rowCells
  refine List.map_congr_left fun j _ => ?_
  have hcolumn : (x + j) % 64 = (x' + j) % 64 := by omega
  exact cellAt_congr hcolumn hy

/-- A sprite falls on the same cells from every corner that wraps to the same place. -/
theorem spriteCells_congr (hx : x % 64 = x' % 64) (hy : y % 32 = y' % 32) (sprite : List UInt8) :
    spriteCells x y sprite = spriteCells x' y' sprite := by
  induction sprite generalizing y y' with
  | nil => rfl
  | cons row rows ih =>
      have hbelow : (y + 1) % 32 = (y' + 1) % 32 := by omega
      rw [spriteCells, spriteCells, rowCells_congr hx hy, ih hbelow]

end Wrapping

section Cells

variable {x y : Nat} {c : Cell}

/-- A row lists the cells under its set pixels. -/
theorem mem_rowCells {row : UInt8} :
    c ∈ rowCells x y row ↔ ∃ j, j < 8 ∧ spriteBit row j = true ∧ cellAt (x + j) y = c := by
  simp only [rowCells, List.mem_map, List.mem_filter, List.mem_range, and_assoc]

/-- The cells of a sprite are those under its set bits. -/
theorem mem_spriteCells {sprite : List UInt8} :
    c ∈ spriteCells x y sprite ↔ ∃ i j row, sprite[i]? = some row ∧ j < 8 ∧
      spriteBit row j = true ∧ cellAt (x + j) (y + i) = c := by
  induction sprite generalizing y with
  | nil => simp [spriteCells]
  | cons top rows ih =>
      rw [spriteCells, List.mem_append, mem_rowCells, ih]
      constructor
      · rintro (⟨j, hbit⟩ | ⟨i, j, row, hrow, hj, hbit, hcell⟩)
        · exact ⟨0, j, top, rfl, hbit⟩
        · rw [Nat.add_right_comm, Nat.add_assoc] at hcell
          exact ⟨i + 1, j, row, hrow, hj, hbit, hcell⟩
      · rintro ⟨i, j, row, hrow, hj, hbit, hcell⟩
        cases i with
        | zero =>
            cases hrow
            exact Or.inl ⟨j, hj, hbit, hcell⟩
        | succ i =>
            rw [← Nat.add_assoc, Nat.add_right_comm] at hcell
            exact Or.inr ⟨i, j, row, hrow, hj, hbit, hcell⟩

/-- A sprite that is no higher than the screen lists no cell twice. -/
theorem nodup_spriteCells {sprite : List UInt8} (hfits : sprite.length ≤ 32) :
    (spriteCells x y sprite).Nodup := by
  rw [List.nodup_iff_count_le_one]
  intro c
  obtain ⟨px, py, rfl⟩ := Raster.exists_eq_cellAt c
  rw [count_spriteCells px.isLt py.isLt]
  exact spriteHits_le_one hfits

end Cells

/-- Taking the corner back to the screen does not change the cells of a draw. -/
theorem Draw.cells_wrapped (d : Draw) : d.wrapped.cells = d.cells := by
  have hx : d.wrapped.x.toNat % 64 = d.x.toNat % 64 := by simp [wrapped]
  have hy : d.wrapped.y.toNat % 32 = d.y.toNat % 32 := by simp [wrapped]
  exact spriteCells_congr hx hy d.sprite

namespace Raster

variable (r : Raster)

/-- Two pictures are equal if every cell is. -/
theorem pixels_ext {r r' : Raster} (h : ∀ c : Cell, r.pixels.get c = r'.pixels.get c) :
    r.pixels = r'.pixels := by
  apply Vector.ext
  intro k hk
  exact h ⟨k, hk⟩

theorem get_blank (c : Cell) : blank.pixels.get c = false :=
  Vector.getElem_replicate c.isLt

/-- The pixels depend on which cells are listed an odd number of times. -/
theorem pixels_flipAll_congr {cells cells' : List Cell}
    (h : ∀ c, cells.count c % 2 = cells'.count c % 2) :
    (r.flipAll cells).1.pixels = (r.flipAll cells').1.pixels := by
  apply pixels_ext
  intro c
  rw [pixels_flipAll, pixels_flipAll, h c]

/-- Turning cells over twice leaves the pixels as they were. -/
theorem pixels_flipAll_twice (cells : List Cell) :
    ((r.flipAll cells).1.flipAll cells).1.pixels = r.pixels := by
  have htwice : ((r.flipAll cells).1.flipAll cells).1 = (r.flipAll (cells ++ cells)).1 := by
    rw [flipAll_append]
  have heven (c : Cell) : (cells ++ cells).count c % 2 = ([] : List Cell).count c % 2 := by
    rw [List.count_append, List.count_nil]
    omega
  rw [htwice]
  exact r.pixels_flipAll_congr heven

/-- Cells that are listed once and turned over a second time collide where they were dark
before the first. -/
theorem flipAll_again_collides {cells : List Cell} (hnodup : cells.Nodup) :
    ((r.flipAll cells).1.flipAll cells).2 = true ↔ ∃ c ∈ cells, r.pixels.get c = false := by
  have hle := List.nodup_iff_count_le_one.1 hnodup
  rw [flipAll_collides]
  constructor
  · rintro ⟨c, ⟨hlit, hlisted⟩ | ⟨-, htwice⟩⟩
    · have honce : cells.count c = 1 := Nat.le_antisymm (hle c) hlisted
      rw [pixels_flipAll, honce] at hlit
      exact ⟨c, List.count_pos_iff.1 hlisted, by simpa using hlit⟩
    · -- No cell is listed twice, so no dark one is turned on and off on the way.
      have := hle c
      omega
  · rintro ⟨c, hmem, hdark⟩
    have honce : cells.count c = 1 := List.count_eq_one_of_mem hnodup hmem
    refine ⟨c, Or.inl ⟨?_, Nat.le_of_eq honce.symm⟩⟩
    rw [pixels_flipAll, honce, hdark]
    rfl

/-- Some set bit of a sprite falls on a pixel that is dark. -/
def DarkUnder (x y : UInt8) (sprite : List UInt8) : Prop :=
  ∃ i j row, sprite[i]? = some row ∧ j < 8 ∧ spriteBit row j = true ∧
    r.pixel (x.toNat + j) (y.toNat + i) = false

/-- A sprite that fits on the screen, drawn again, collides where it was dark before. -/
theorem paint_again_collides (x y : UInt8) {sprite : List UInt8} (hfits : sprite.length ≤ 32) :
    ((r.paint x y sprite).1.paint x y sprite).2 = true ↔ r.DarkUnder x y sprite := by
  unfold paint
  rw [flipAll_again_collides r (nodup_spriteCells hfits)]
  constructor
  · rintro ⟨c, hmem, hdark⟩
    obtain ⟨i, j, row, hrow, hj, hbit, rfl⟩ := mem_spriteCells.1 hmem
    exact ⟨i, j, row, hrow, hj, hbit, hdark⟩
  · rintro ⟨i, j, row, hrow, hj, hbit, hdark⟩
    exact ⟨_, mem_spriteCells.2 ⟨i, j, row, hrow, hj, hbit, rfl⟩, hdark⟩

/-- Draws turn over the cells of each of them. -/
theorem paintAll_fst (draws : List Draw) :
    (r.paintAll draws).1 = (r.flipAll (draws.flatMap Draw.cells)).1 := by
  induction draws generalizing r with
  | nil => rfl
  | cons d draws ih =>
      rw [List.flatMap_cons, flipAll_append]
      exact ih (r.flipAll d.cells).1

/-- Taking the corner of a draw back to the screen does not change what it paints. -/
theorem paint_wrapped (d : Draw) :
    r.paint d.wrapped.x d.wrapped.y d.wrapped.sprite = r.paint d.x d.y d.sprite :=
  congrArg r.flipAll d.cells_wrapped

/-- In a list of draws the corner of one can be taken back without changing the picture. -/
theorem paintAll_modify_wrapped (draws : List Draw) (n : Nat) :
    r.paintAll (draws.modify n Draw.wrapped) = r.paintAll draws := by
  induction draws generalizing r n with
  | nil => rw [List.modify_nil]
  | cons d draws ih =>
      cases n with
      | zero =>
          rw [List.modify_zero_cons]
          simp only [paintAll, paint_wrapped]
      | succ n =>
          rw [List.modify_succ_cons]
          simp only [paintAll, ih]

/-- **Compositing is reversible.**  For any draws, of sprites of any height, the pixels do
not depend on the order in which they are drawn, and not on two equal draws among them.
Drawing all of them a second time restores the pixels.  A draw may be replaced by the one
from where its corner wraps to: it makes no difference at all, to the collisions no more
than to the pixels. -/
theorem compositing_reversible (draws : List Draw) :
    (∀ draws', draws'.Perm draws →
      (r.paintAll draws').1.pixels = (r.paintAll draws).1.pixels) ∧
    (∀ d before between behind, draws = before ++ d :: (between ++ d :: behind) →
      (r.paintAll (before ++ (between ++ behind))).1.pixels = (r.paintAll draws).1.pixels) ∧
    ((r.paintAll draws).1.paintAll draws).1.pixels = r.pixels ∧
    ∀ n, r.paintAll (draws.modify n Draw.wrapped) = r.paintAll draws := by
  refine ⟨?_, ?_, ?_, r.paintAll_modify_wrapped draws⟩
  · intro draws' hperm
    rw [paintAll_fst, paintAll_fst]
    refine r.pixels_flipAll_congr fun c => ?_
    rw [(hperm.flatMap_right Draw.cells).count_eq]
  · rintro d before between behind rfl
    rw [paintAll_fst, paintAll_fst]
    refine r.pixels_flipAll_congr fun c => ?_
    simp only [List.flatMap_append, List.flatMap_cons, List.count_append]
    omega
  · rw [paintAll_fst, paintAll_fst]
    exact r.pixels_flipAll_twice _

/-- Two rows at the bottom right corner, which wrap at both edges. -/
def cornerDraw : Draw := ⟨62, 31, [0x81, 0x3C]⟩

/-- A row that wraps to the same corner from outside the screen. -/
def farDraw : Draw := ⟨126, 95, [0xE0]⟩

/-- The two draws overlap at `(62, 31)`, which ends up dark in either order.  The one that
stays when the other has been drawn twice lights that pixel. -/
theorem cornerDraw_farDraw_overlap :
    [farDraw, cornerDraw].Perm [cornerDraw, farDraw] ∧
    (blank.paintAll [farDraw, cornerDraw]).1.pixels =
      (blank.paintAll [cornerDraw, farDraw]).1.pixels ∧
    (blank.paintAll [cornerDraw, farDraw]).1.pixel 62 31 = false ∧
    (blank.paintAll [farDraw]).1.pixels =
      (blank.paintAll [cornerDraw, farDraw, cornerDraw]).1.pixels ∧
    (blank.paintAll [farDraw]).1.pixel 62 31 = true := by
  have hperm : [farDraw, cornerDraw].Perm [cornerDraw, farDraw] := List.Perm.swap _ _ _
  obtain ⟨horder, -⟩ := blank.compositing_reversible [cornerDraw, farDraw]
  obtain ⟨-, hpair, -⟩ := blank.compositing_reversible [cornerDraw, farDraw, cornerDraw]
  have hpixel (draws : List Draw) : (blank.paintAll draws).1.pixel 62 31 =
      decide ((draws.flatMap Draw.cells).count (cellAt 62 31) % 2 = 1) := by
    have hflip := blank.pixels_flipAll (draws.flatMap Draw.cells) (cellAt 62 31)
    rw [← paintAll_fst, get_blank, Bool.false_xor] at hflip
    exact hflip
  refine ⟨hperm, horder _ hperm, ?_, hpair cornerDraw [] [farDraw] [] rfl, ?_⟩
  · rw [hpixel]
    decide
  · rw [hpixel]
    decide

end Raster

end Chip8
