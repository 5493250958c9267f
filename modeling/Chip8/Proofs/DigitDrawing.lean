import Chip8.Proofs.DrawInstruction
import Chip8.Proofs.FontIntegrity

/-!
# Drawing a digit

A program shows a digit in two instructions: `FX29` points the index register to a glyph of
the font, and `DXY5` draws the five rows that it points to.  The address comes from the low
four bits of VX, so it is one of the sixteen glyphs, whatever VX holds.  And the font is in
memory at any time, whatever has been written before.  So the digit is drawn, and it is the
glyph of the font.

* `Font.getElem?_glyph`, `Memory.slice_glyph` — the rows of a glyph, and where memory with the
  font has them;
* `Machine.execute_digit` — the two instructions on a machine with the font;
* `Machine.digit_always_drawn` — the same after any operations.
-/

namespace Chip8

namespace Font

variable (digit : UInt8)

/-- A glyph has five rows. -/
theorem length_glyph : (glyph digit).length = 5 := by
  have hlt : digit.toNat % 16 < 16 := Nat.mod_lt _ (by decide)
  simp [glyph, glyphHeight]
  omega

/-- The rows of a glyph are those of the font from its place on. -/
theorem getElem?_glyph {i : Nat} (hi : i < 5) :
    (glyph digit)[i]? = bytes.toList[5 * (digit.toNat % 16) + i]? := by
  unfold glyph glyphHeight
  rw [List.getElem?_take_of_lt hi, List.getElem?_drop]

/-- Of a byte the low four bits count: these are the rows of the letter A. -/
example : glyph 0x1A = [0xF0, 0x90, 0xF0, 0x90, 0x90] := by
  decide

/-- The glyphs lie one behind the other, five bytes each, from address zero on. -/
theorem toNat_glyphAddress : (glyphAddress digit).toNat = 5 * (digit.toNat % 16) := by
  have hlt : digit.toNat % 16 < 16 := Nat.mod_lt _ (by decide)
  exact UInt16.toNat_ofNat_of_lt' (by change 5 * (digit.toNat % 16) < 65536; omega)

end Font

/-- Memory with the font has the rows of a glyph where the glyph is said to start. -/
theorem Memory.slice_glyph {m : Memory} (hm : m.HasFont) (digit : UInt8) :
    m.slice (Font.glyphAddress digit).toNat 5 = .ok (Font.glyph digit) := by
  have hlt : digit.toNat % 16 < 16 := Nat.mod_lt _ (by decide)
  rw [Font.toNat_glyphAddress]
  have hfits : 5 * (digit.toNat % 16) + 5 ≤ 4096 := by omega
  obtain ⟨rows, hslice, hlength, hbytes⟩ := m.exists_slice (Or.inr hfits)
  have hrows : rows = Font.glyph digit := by
    apply List.ext_getElem?
    intro i
    by_cases hi : i < 5
    · have hinside : 5 * (digit.toNat % 16) + i < 80 := by omega
      have hread := hbytes i (hlength.symm ▸ hi)
      rw [hm _ hinside] at hread
      rw [Font.getElem?_glyph digit hi, List.getElem?_eq_getElem (hlength.symm ▸ hi),
        ← Except.ok.inj hread]
      simp [hinside]
    · rw [List.getElem?_eq_none (by omega), List.getElem?_eq_none]
      rw [Font.length_glyph]
      omega
  rw [hslice, hrows]

namespace Machine

/-- Memory has the font after any operations. -/
theorem performAll_hasFont (random : Generator) (ops : List Operation) :
    ((boot random).performAll ops).1.memory.HasFont :=
  performAll_preserves (P := fun m => m.memory.HasFont)
    (fun op _ _ hm => perform_hasFont op hm) (Memory.hasFont_fresh #[])

/-- The two instructions that draw a digit, on a machine that has the font. -/
theorem execute_digit {m : Machine} (hm : m.memory.HasFont) (x a b : Reg) :
    m.execute (.pointGlyph x) = ({ m with index := Font.glyphAddress (m.reg x) }, none) ∧
    { m with index := Font.glyphAddress (m.reg x) }.execute (.draw a b 5) = ({ m with
      index := Font.glyphAddress (m.reg x)
      raster := (m.raster.paint (m.reg a) (m.reg b) (Font.glyph (m.reg x))).1
      registers := m.registers.set .vf
        (m.raster.paint (m.reg a) (m.reg b) (Font.glyph (m.reg x))).2.toUInt8 }, none) :=
  ⟨rfl, execute_draw (Memory.slice_glyph hm (m.reg x))⟩

/-- **A digit is always drawn.**  Perform any operations on a fresh machine, whether they
succeed or not, and take any three registers, the flag register among them.  Then `FX29` and
`DXY5` go through.  The picture is the one before, turned over under the five rows that the
font has for the low four bits of VX, drawn from the corner that the other two registers hold
and wrapped at the edges.  VF tells whether the glyph overlapped a lit pixel, the index register
points to the glyph, and nothing else of the machine has changed. -/
theorem digit_always_drawn (random : Generator) (ops : List Operation) (x a b : Reg) :
    let m := ((boot random).performAll ops).1
    let glyph := Font.glyph (m.reg x)
    let lights := wrappedSprite (m.reg a).toNat (m.reg b).toNat glyph
    glyph.length = 5 ∧
    (∀ i, i < 5 → glyph[i]? = Font.bytes.toList[5 * ((m.reg x).toNat % 16) + i]?) ∧
    ∃ pointed raster hit, m.execute (.pointGlyph x) = (pointed, none) ∧
      pointed.execute (.draw a b 5) = ({ m with
        index := Font.glyphAddress (m.reg x)
        raster := raster
        registers := m.registers.set .vf (if hit then 1 else 0) }, none) ∧
      (∀ (px : Fin 64) (py : Fin 32),
        raster.pixel px py = (m.raster.pixel px py ^^ lights px py)) ∧
      (hit = true ↔ ∃ (px : Fin 64) (py : Fin 32),
        m.raster.pixel px py = true ∧ lights px py = true) := by
  intro m glyph lights
  have hfont : m.memory.HasFont := performAll_hasFont random ops
  have hlength : glyph.length = 5 := Font.length_glyph _
  have hfits : glyph.length ≤ 32 := by omega
  obtain ⟨hpoint, hdraw⟩ := execute_digit hfont x a b
  refine ⟨hlength, fun i hi => Font.getElem?_glyph _ hi, _, _, _, hpoint, hdraw, ?_, ?_⟩
  · intro px py
    exact m.raster.pixel_paint_of_fits _ _ hfits px py
  · exact m.raster.paint_collides_of_fits _ _ hfits

end Machine

end Chip8
