import Chip8.Proofs.Effect
import Chip8.Proofs.Operation
import Chip8.Proofs.Persistence

/-!
# The font stays intact

No write goes through to the font, whether it comes from the host or from an
instruction that stores several bytes, and a program that is loaded comes with
the font.  So the first eighty bytes of memory are the font after any sequence
of operations.

* `Memory.hasFont_writeAll` — a write of several bytes spares the font, also
  when it is stopped on the way;
* `Machine.perform_hasFont` — every operation keeps the font;
* `Machine.font_intact` — the font is there after any sequence of operations.
-/

namespace Chip8

namespace Memory

/-- The first eighty bytes are the font. -/
def HasFont (m : Memory) : Prop :=
  ∀ a (h : a < 80), m.read a = .ok Font.bytes[a]

/-- Memory has the font when a program has been put into it. -/
theorem hasFont_fresh (program : Array UInt8) : (fresh program).HasFont := by
  intro a h
  rw [read_fresh (by omega)]
  simp [freshByte, h]

/-- A write that goes through does not reach the font. -/
theorem hasFont_write {m m' : Memory} {a : Nat} {b : UInt8} (hm : m.HasFont)
    (h : m.write a b = .ok m') : m'.HasFont := by
  have ha : ¬ a < 80 := by
    intro hlt
    simp [write, fontEnd, hlt] at h
  intro c hc
  rw [read_write h, if_neg (by omega)]
  exact hm c hc

/-- Several writes in a row do not reach the font either, where they end with a refusal or
not. -/
theorem hasFont_writeAll {m : Memory} (hm : m.HasFont) (a : Nat) (bs : List UInt8) :
    (m.writeAll a bs).1.HasFont := by
  induction bs generalizing m a with
  | nil => exact hm
  | cons b bs ih =>
      unfold writeAll
      split
      · next m' h => exact ih (hasFont_write hm h) (a + 1)
      · exact hm

end Memory

namespace Machine

/-- No operation takes the font away. -/
theorem persistent_hasFont :
    Persistent fun m m' => m.memory.HasFont → m'.memory.HasFont where
  refl _ h := h
  trans hab hbc h := hbc (hab h)
  bookkeeping _ _ _ _ h := h
  execute m i h := by
    obtain ⟨bs, hbs⟩ := (m.execute_effect i).memory
    rw [hbs]
    exact Memory.hasFont_writeAll h _ bs

/-- Every operation keeps the font. -/
theorem perform_hasFont {m : Machine} (op : Operation) (hm : m.memory.HasFont) :
    (m.perform op).1.memory.HasFont := by
  cases op with
  | load program =>
      refine proceed_preserves (P := fun m => m.memory.HasFont) hm ?_
      intro m' h
      rw [(load_eq_ok h).2]
      exact Memory.hasFont_fresh program
  | step => exact persistent_hasFont.step m hm
  | runFrame steps ticks => exact persistent_hasFont.runFrame (fun _ h => h) m steps ticks hm
  | execute i => exact persistent_hasFont.execute m i hm
  | fetch =>
      refine proceed_preserves (P := fun m => m.memory.HasFont) hm ?_
      rintro ⟨word, m'⟩ h
      rw [(fetch_eq_ok h).2]
      exact hm
  | keyDown code =>
      refine proceed_preserves (P := fun m => m.memory.HasFont) hm ?_
      intro m' h
      obtain ⟨keypad, -, ⟨x, -, rfl⟩ | ⟨-, rfl⟩⟩ := keyDown_eq_ok h
      · exact hm
      · exact hm
  | keyUp code =>
      refine proceed_preserves (P := fun m => m.memory.HasFont) hm ?_
      intro m' h
      obtain ⟨keypad, -, rfl⟩ := keyUp_eq_ok h
      exact hm
  | write a b =>
      refine proceed_preserves (P := fun m => m.memory.HasFont) hm ?_
      intro memory h
      exact Memory.hasFont_write hm h
  | push a => exact proceed_preserves (P := fun m => m.memory.HasFont) hm fun _ _ => hm
  | pop => exact proceed_preserves (P := fun m => m.memory.HasFont) hm fun _ _ => hm
  | _ => exact hm

/-- **The font is intact.**  Whatever operations are performed on a fresh
machine, in whatever order and whether they succeed, fail or stop halfway, the
first eighty bytes of memory are the font after each of them. -/
theorem font_intact (random : Generator) (ops : List Operation) (moment : Nat) (a : Fin 80) :
    ((boot random).performAll (ops.take moment)).1.memory.read a = .ok Font.bytes[a.val] := by
  have hboot : (boot random).memory.HasFont := Memory.hasFont_fresh #[]
  have hrun : ((boot random).performAll (ops.take moment)).1.memory.HasFont :=
    performAll_preserves (P := fun m => m.memory.HasFont)
      (fun op _ _ hm => perform_hasFont op hm) hboot
  exact hrun a a.isLt

end Machine

end Chip8
