import Chip8.Proofs.Footprint

/-!
# What an instruction can change

An instruction changes memory by one write at the index register at most, leaves
the keypad alone, and marks the raster as changed when it draws or clears.
`Machine.execute_effect` goes through the instructions once, and what runs keep
of these parts follows from it.
-/

namespace Chip8

namespace Raster

/-- From one raster to another: the same pixels and mark, or marked as changed. -/
def Marked (r r' : Raster) : Prop :=
  r' = r ∨ r'.dirty = true

/-- Two changes of the picture that mark it make one that does. -/
theorem Marked.trans {a b c : Raster} (hab : a.Marked b) (hbc : b.Marked c) : a.Marked c := by
  rcases hbc with rfl | hdirty
  · exact hab
  · exact Or.inr hdirty

/-- Turning cells over marks the picture, or there was no cell to turn over. -/
theorem marked_flipAll (r : Raster) (cells : List Cell) : r.Marked (r.flipAll cells).1 := by
  induction cells generalizing r with
  | nil => exact Or.inl rfl
  | cons c cells ih =>
      have hflip : r.Marked (r.flip c) := Or.inr rfl
      exact hflip.trans (ih (r.flip c))

end Raster

namespace Machine

/-- What an instruction may do to memory, keypad and raster. -/
structure Effect (m m' : Machine) : Prop where
  memory : ∃ bs, m'.memory = (m.memory.writeAll m.index.toNat bs).1
  keypad : m'.keypad = m.keypad
  raster : m.raster.Marked m'.raster

/-- What leaves memory, keypad and picture alone has an allowed effect. -/
theorem effect_of_untouched {m m' : Machine} (hmemory : m'.memory = m.memory)
    (hkeypad : m'.keypad = m.keypad) (hraster : m'.raster = m.raster) : Effect m m' where
  memory := ⟨[], hmemory⟩
  keypad := hkeypad
  raster := Or.inl hraster

/-- A drawing changes the picture and marks it. -/
theorem effect_drawSprite (m : Machine) (x y : Reg) (height : UInt8) :
    Effect m (m.drawSprite x y height).1 := by
  unfold drawSprite
  dsimp only
  split
  · exact ⟨⟨[], rfl⟩, rfl, Raster.marked_flipAll _ _⟩
  · exact effect_of_untouched rfl rfl rfl

/-- Every instruction has an allowed effect, whether it fails or not. -/
theorem execute_effect (m : Machine) (i : Instruction) : Effect m (m.execute i).1 := by
  have hsame := m.sameOutside_execute i
  cases i with
  | clear => exact ⟨⟨[], rfl⟩, rfl, Or.inr rfl⟩
  | draw x y height => exact effect_drawSprite m x y height
  | storeDecimal x => exact ⟨⟨decimalDigits (m.reg x), rfl⟩, rfl, Or.inl rfl⟩
  | store x => exact ⟨⟨x.upTo.map m.reg, rfl⟩, rfl, Or.inl rfl⟩
  | _ =>
      exact effect_of_untouched (hsame .memory (by simp [Instruction.footprint]))
        (hsame .keypad (by simp [Instruction.footprint]))
        (hsame .raster (by simp [Instruction.footprint]))

end Machine

end Chip8
