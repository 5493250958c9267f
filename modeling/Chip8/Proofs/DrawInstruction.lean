import Chip8.Proofs.Compositing
import Chip8.Proofs.Execution

/-!
# The draw instruction

The instruction `DXYN` reads its corner from two registers, clears the flag, reads the
sprite from memory, and sets the flag to the collision.  The flag register may name the
corner too: the corner is read first, so it is drawn where it was asked for.  A sprite
that ends behind memory is refused when the flag has been cleared already.

* `Machine.execute_draw`, `Machine.execute_draw_refused` — what the instruction comes to;
* `Machine.execute_draw_again` — and what it comes to when it is executed twice;
* `Machine.draw_composites_sprite` — all of it, from the index register on.
-/

namespace Chip8

theorem toUInt8_eq_one_iff (flag : Bool) : flag.toUInt8 = 1 ↔ flag = true := by
  cases flag with
  | false => decide
  | true => decide

namespace Machine

variable {m : Machine} {x y : Reg} {height : UInt8} {sprite : List UInt8}

/-- The sprite is drawn where the registers say before the instruction. -/
theorem execute_draw (hslice : m.memory.slice m.index.toNat height.toNat = .ok sprite) :
    m.execute (.draw x y height) = ({ m with
      raster := (m.raster.paint (m.reg x) (m.reg y) sprite).1
      registers := m.registers.set .vf
        (m.raster.paint (m.reg x) (m.reg y) sprite).2.toUInt8 }, none) := by
  simp only [execute, drawSprite, setReg, hslice, Registers.set_set]

/-- A sprite that is not all in memory costs the flag and nothing else. -/
theorem execute_draw_refused (hheight : height ≠ 0)
    (hend : 4096 < m.index.toNat + height.toNat) :
    m.execute (.draw x y height) = ({ m with registers := m.registers.set .vf 0 },
      some (.outOfBounds (max m.index.toNat 4096))) := by
  have hrows : 0 < height.toNat := Nat.pos_of_ne_zero fun h => hheight (UInt8.toNat_inj.1 h)
  have hrefusal : Memory.readRefusal m.index.toNat height.toNat =
      some (.outOfBounds (max m.index.toNat 4096)) :=
    Memory.readRefusal_eq_some_iff.2 ⟨hrows, hend, rfl⟩
  have hslice : m.memory.slice m.index.toNat height.toNat =
      .error (.outOfBounds (max m.index.toNat 4096)) :=
    Memory.slice_eq_error_iff.2 hrefusal
  simp only [execute, drawSprite, setReg, hslice]

/-- A corner that does not lie in the flag register is the same for a second execution,
which therefore undoes the first. -/
theorem execute_draw_again (hslice : m.memory.slice m.index.toNat height.toNat = .ok sprite)
    (hx : x ≠ .vf) (hy : y ≠ .vf) (hfits : sprite.length ≤ 32) :
    ∃ m', (m.execute (.draw x y height)).1.execute (.draw x y height) = (m', none) ∧
      m'.raster.pixels = m.raster.pixels ∧
      (m'.reg .vf = 1 ↔ m.raster.DarkUnder (m.reg x) (m.reg y) sprite) := by
  have hfirst := execute_draw (x := x) (y := y) hslice
  have hcorner (z : Reg) (hz : z ≠ .vf) : (m.execute (.draw x y height)).1.reg z = m.reg z := by
    rw [hfirst]
    exact (m.registers.get_set ..).trans (if_neg hz.symm)
  have hraster : (m.execute (.draw x y height)).1.raster =
      (m.raster.paint (m.reg x) (m.reg y) sprite).1 := by
    rw [hfirst]
  have hagain : (m.execute (.draw x y height)).1.memory.slice
      (m.execute (.draw x y height)).1.index.toNat height.toNat = .ok sprite := by
    rw [hfirst]
    exact hslice
  have hsecond := execute_draw (x := x) (y := y) hagain
  rw [hcorner x hx, hcorner y hy, hraster] at hsecond
  refine ⟨_, hsecond, m.raster.pixels_flipAll_twice _, ?_⟩
  rw [← m.raster.paint_again_collides _ _ hfits, ← toUInt8_eq_one_iff]
  change (Registers.set _ .vf _).get .vf = 1 ↔ _
  rw [Registers.get_set_self]

/-- **The draw instruction.**  Take any two registers, the flag register among them, and
any height.  If the rows are in memory, or there are none, then the sprite that they make
up is drawn at the corner that the registers held before, and VF tells whether it
collided.  Otherwise the first address of theirs that is not in memory is reported, VF is
cleared, and no pixel changes.  The machine is as before in everything else.

If moreover the corner does not lie in VF and the sprite is no higher than the screen,
executing the instruction again restores all pixels, and VF tells whether some set bit
of the sprite fell on a dark pixel the first time. -/
theorem draw_composites_sprite (m : Machine) (x y : Reg) (height : UInt8) :
    (height = 0 ∨ m.index.toNat + height.toNat ≤ 4096 →
      ∃ sprite : List UInt8, sprite.length = height.toNat ∧
        m.memory.HasBytes m.index.toNat sprite ∧
        m.execute (.draw x y height) = ({ m with
          raster := (m.raster.paint (m.reg x) (m.reg y) sprite).1
          registers := m.registers.set .vf
            (if (m.raster.paint (m.reg x) (m.reg y) sprite).2 then 1 else 0) }, none) ∧
        (x ≠ .vf → y ≠ .vf → height.toNat ≤ 32 →
          ∃ m', (m.execute (.draw x y height)).1.execute (.draw x y height) = (m', none) ∧
            m'.raster.pixels = m.raster.pixels ∧
            (m'.reg .vf = 1 ↔ m.raster.DarkUnder (m.reg x) (m.reg y) sprite))) ∧
    (¬ (height = 0 ∨ m.index.toNat + height.toNat ≤ 4096) →
      m.execute (.draw x y height) = ({ m with registers := m.registers.set .vf 0 },
        some (.outOfBounds (max m.index.toNat 4096)))) := by
  constructor
  · intro hrows
    have hfits : height.toNat = 0 ∨ m.index.toNat + height.toNat ≤ 4096 :=
      hrows.imp_left (congrArg UInt8.toNat)
    obtain ⟨sprite, hslice, hlength, hbytes⟩ := m.memory.exists_slice hfits
    refine ⟨sprite, hlength, hbytes, execute_draw hslice, ?_⟩
    intro hx hy hheight
    exact execute_draw_again hslice hx hy (hlength ▸ hheight)
  · intro hrows
    obtain ⟨hheight, hend⟩ := not_or.1 hrows
    exact execute_draw_refused hheight (Nat.not_le.1 hend)

/-- A machine whose index register points to the digit zero and whose register V0 stands
for both coordinates of the corner: the last column, and a row that wraps to the last. -/
def atZeroDigit : Machine :=
  (start .blank (.ofSeed 7)).setReg .v0 63

/-- The digit zero wraps at both edges.  Drawn twice it is gone again, and the second time
it has collided.  With the last address in the index register it is refused. -/
theorem zeroDigit_drawn_twice :
    ((5 : UInt8) = 0 ∨ atZeroDigit.index.toNat + (5 : UInt8).toNat ≤ 4096) ∧
    Reg.v0 ≠ .vf ∧ (5 : UInt8).toNat ≤ 32 ∧
    (∃ m', (atZeroDigit.execute (.draw .v0 .v0 5)).1.execute (.draw .v0 .v0 5) = (m', none) ∧
      m'.raster.pixels = atZeroDigit.raster.pixels ∧ m'.reg .vf = 1) ∧
    ¬ ((5 : UInt8) = 0 ∨ (0xFFFF : Address).toNat + (5 : UInt8).toNat ≤ 4096) ∧
    ({ atZeroDigit with index := 0xFFFF }.execute (.draw .v0 .v0 5)).2 =
      some (.outOfBounds 0xFFFF) := by
  have hrows : (5 : UInt8) = 0 ∨ atZeroDigit.index.toNat + (5 : UInt8).toNat ≤ 4096 := by decide
  have hcorner : Reg.v0 ≠ .vf := by decide
  have hheight : (5 : UInt8).toNat ≤ 32 := by decide
  have hbehind : ¬ ((5 : UInt8) = 0 ∨ (0xFFFF : Address).toNat + (5 : UInt8).toNat ≤ 4096) := by
    decide
  obtain ⟨sprite, hlength, hbytes, -, htwice⟩ :=
    (draw_composites_sprite atZeroDigit .v0 .v0 5).1 hrows
  obtain ⟨m', hexecute, hpixels, hflag⟩ := htwice hcorner hcorner hheight
  have hrefused :=
    (draw_composites_sprite { atZeroDigit with index := 0xFFFF } .v0 .v0 5).2 hbehind
  refine ⟨hrows, hcorner, hheight, ⟨m', hexecute, hpixels, hflag.2 ?_⟩, hbehind,
    congrArg Prod.snd hrefused⟩
  have htop : 0 < sprite.length := hlength.symm ▸ by decide
  have hread : atZeroDigit.memory.read 0 = .ok 0xF0 := Memory.read_fresh (by decide)
  have hrow : sprite[0] = 0xF0 := Except.ok.inj ((hbytes 0 htop).symm.trans hread)
  have hdark : atZeroDigit.raster.pixel (63 + 0) (63 + 0) = false := Raster.get_blank _
  refine ⟨0, 0, 0xF0, ?_, by decide, by decide, hdark⟩
  rw [List.getElem?_eq_getElem htop, hrow]

end Machine

end Chip8
