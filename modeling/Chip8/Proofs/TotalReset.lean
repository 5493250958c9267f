import Chip8.Proofs.FontIntegrity

/-!
# Loading a program starts over

Loading sets every part of the machine back, so that nothing an earlier program
has done shows in what the machine does next: registers, the slots of the call
stack that are not live, held keys, a picture that was taken, a fault.  Only the
source of random bytes goes on from where it is.  A program that does not fit is
refused before anything is set back.

* `Memory.holds_fresh` — what memory holds once a program has been loaded;
* `Machine.load_starts_over` — a load sets everything back or nothing.
-/

namespace Chip8

namespace Memory

/-- There is room for 3584 bytes of a program. -/
theorem programCapacity_eq : programCapacity = 3584 := by
  decide

/-- The font, the program at its place, and zeros everywhere else. -/
structure Holds (m : Memory) (program : Array UInt8) : Prop where
  font : m.HasFont
  code : ∀ k (h : k < program.size), m.read (512 + k) = .ok program[k]
  rest : ∀ a, 80 ≤ a → a < 4096 → a < 512 ∨ 512 + program.size ≤ a → m.read a = .ok 0

/-- From `0200` on there is the program. -/
theorem freshByte_program {program : Array UInt8} {k : Nat} (h : k < program.size) :
    freshByte program (512 + k) = program[k] := by
  have hfont : ¬ 512 + k < 80 := by omega
  have hstart : programStart.toNat ≤ 512 + k := by
    change 512 ≤ 512 + k
    omega
  have hoffset : 512 + k - programStart.toNat = k := by
    change 512 + k - 512 = k
    omega
  simp only [freshByte, hfont, hstart, hoffset, ↓reduceDIte, ↓reduceIte]
  simp [h]

/-- Behind the font, before and behind the program, there are zeros. -/
theorem freshByte_elsewhere {program : Array UInt8} {a : Nat} (hfont : 80 ≤ a)
    (ha : a < 512 ∨ 512 + program.size ≤ a) : freshByte program a = 0 := by
  unfold freshByte
  rw [dif_neg (Nat.not_lt.2 hfont)]
  split
  · next hstart =>
      change 512 ≤ a at hstart
      have hbehind : program.size ≤ a - programStart.toNat := by
        change program.size ≤ a - 512
        omega
      simp [hbehind]
  · rfl

/-- Memory into which a program has been put holds it. -/
theorem holds_fresh {program : Array UInt8} (hfits : program.size ≤ programCapacity) :
    (fresh program).Holds program where
  font := hasFont_fresh program
  code k h := by
    rw [programCapacity_eq] at hfits
    rw [read_fresh (by omega), freshByte_program h]
  rest a hfont hlt ha := by
    rw [read_fresh hlt, freshByte_elsewhere hfont ha]

end Memory

namespace Machine

theorem start_eq_boot (memory : Memory) (random : Generator) :
    start memory random = { boot random with memory := memory } :=
  rfl

theorem boot_random (random : Generator) : (boot random).random = random :=
  rfl

/-- **Loading starts over.**  A program that does not fit is refused, and the
machine stays as it is.  One that fits gives a newly booted machine around the
same source of random bytes, with the program in its memory, whatever the machine
has been through; so every sequence of operations that begins with the load has
the same answers and ends in the same state as on the booted machine. -/
theorem load_starts_over (m : Machine) (program : Array UInt8) :
    (3584 < program.size →
      m.load program = .error (.programTooLarge program.size 3584) ∧
      m.perform (.load program) = (m, .refused (.programTooLarge program.size 3584))) ∧
    (program.size ≤ 3584 →
      (∃ memory, memory.Holds program ∧
        m.load program = .ok { boot m.random with memory := memory } ∧
        (boot m.random).load program = .ok { boot m.random with memory := memory }) ∧
      ∀ ops, m.performAll (.load program :: ops) =
        (boot m.random).performAll (.load program :: ops)) := by
  rw [← Memory.programCapacity_eq]
  constructor
  · intro hlarge
    have hload := m.load_of_large hlarge
    refine ⟨hload, ?_⟩
    simp only [perform, hload, proceed]
  · intro hfits
    have hload := m.load_of_fits hfits
    have hboot := (boot m.random).load_of_fits hfits
    rw [start_eq_boot] at hload
    rw [boot_random, start_eq_boot] at hboot
    constructor
    · exact ⟨.fresh program, Memory.holds_fresh hfits, hload, hboot⟩
    · intro ops
      simp only [performAll, perform, hload, hboot, proceed]

/-- A machine of which no part is as it was at the start. -/
def wornOut : Machine where
  memory := .zero
  registers := ⟨Vector.replicate 16 0xFF⟩
  pc := 0x0FFF
  index := 0xFFFF
  stack := .full 0x0202
  timers := ⟨⟨7⟩, ⟨9⟩⟩
  raster := { pixels := Vector.replicate 2048 true, dirty := false }
  keypad := ⟨Vector.replicate 16 true⟩
  state := .halted ⟨{ address := 0x0FFF }, .outOfBounds 4096⟩
  lastTrace := some { address := 0x0FFF }
  random := { key := Vector.replicate 8 1, taken := 3 }

/-- The worn out machine refuses a program that is one byte too long, and starts
over with one that fits. -/
theorem wornOut_starts_over :
    3584 < (Array.replicate 3585 (0 : UInt8)).size ∧
    wornOut.load (Array.replicate 3585 0) = .error (.programTooLarge 3585 3584) ∧
    (#[0x12, 0x00] : Array UInt8).size ≤ 3584 ∧
    ∀ ops, wornOut.performAll (.load #[0x12, 0x00] :: ops) =
      (boot wornOut.random).performAll (.load #[0x12, 0x00] :: ops) := by
  have hsize : (Array.replicate 3585 (0 : UInt8)).size = 3585 := Array.size_replicate
  have hlarge : 3584 < (Array.replicate 3585 (0 : UInt8)).size := by
    rw [hsize]
    decide
  have hfits : (#[0x12, 0x00] : Array UInt8).size ≤ 3584 := by decide
  have hrefused := ((load_starts_over wornOut (Array.replicate 3585 0)).1 hlarge).1
  rw [hsize] at hrefused
  exact ⟨hlarge, hrefused, hfits, ((load_starts_over wornOut #[0x12, 0x00]).2 hfits).2⟩

end Machine

end Chip8
