import Chip8.Proofs.Transfer

/-!
# The footprint of an instruction

A program relies on an instruction for what it does and also for what it leaves alone: the
flag, the index register, the registers that it does not name.  Here the machine is cut into
places that can be looked at one by one, and each instruction is given the few places that
it may change.  Everywhere else the machine is as before, whether the instruction was
carried out or stopped.

* `Place`, `Machine.content` — the places of the machine and what there is at them;
* `Machine.eq_of_content` — they are all that there is to a machine;
* `Instruction.footprint` — the places that an instruction may change;
* `Machine.sameOutside_execute` — it changes no other;
* `Machine.instruction_footprint` — this, and that a call or return that is stopped changes
  nothing.
-/

namespace Chip8

/-- A place of the machine. -/
inductive Place where
  | memory
  | register (x : Reg)
  | pc
  | index
  | stack
  | delay
  | sound
  | raster
  | keypad
  | state
  | lastTrace
  | random
  deriving DecidableEq, Repr

/-- What can be at a place. -/
def Place.Content : Place → Type
  | .memory => Memory
  | .register _ => UInt8
  | .pc | .index => Address
  | .stack => CallStack
  | .delay | .sound => Timer
  | .raster => Raster
  | .keypad => Keypad
  | .state => RunState
  | .lastTrace => Option Trace
  | .random => Generator

/-- The places that an instruction may change. -/
def Instruction.footprint : Instruction → List Place
  | .sys _ => []
  | .clear => [.raster]
  | .ret | .call _ => [.pc, .stack]
  | .jump _ | .jumpOffset _ => [.pc]
  | .skipIfByte .. | .skipUnlessByte .. | .skipIfSame .. | .skipUnlessSame ..
  | .skipIfHeld _ | .skipUnlessHeld _ => [.pc]
  | .setByte x _ | .addByte x _ | .copy x _ | .or x _ | .and x _ | .xor x _
  | .readDelay x => [.register x]
  | .add x _ | .sub x _ | .shiftRight x _ | .subFrom x _ | .shiftLeft x _ =>
      [.register x, .register .vf]
  | .setIndex _ | .addIndex _ | .pointGlyph _ => [.index]
  | .random x _ => [.random, .register x]
  | .draw .. => [.raster, .register .vf]
  | .awaitKey _ => [.state]
  | .setDelay _ => [.delay]
  | .setSound _ => [.sound]
  | .storeDecimal _ | .store _ => [.memory]
  | .load x => ((List.finRange 16).filter (· ≤ x)).map .register

/-- Registers that hold the same bytes are the same. -/
theorem Registers.ext_get {r r' : Registers} (h : ∀ x, r.get x = r'.get x) : r = r' := by
  rcases r with ⟨bytes⟩
  rcases r' with ⟨bytes'⟩
  have hbytes : bytes = bytes' := Vector.ext fun k hk => h ⟨k, hk⟩
  rw [hbytes]

namespace Machine

/-- What there is at a place. -/
def content (m : Machine) : (p : Place) → p.Content
  | .memory => m.memory
  | .register x => m.reg x
  | .pc => m.pc
  | .index => m.index
  | .stack => m.stack
  | .delay => m.timers.delay
  | .sound => m.timers.sound
  | .raster => m.raster
  | .keypad => m.keypad
  | .state => m.state
  | .lastTrace => m.lastTrace
  | .random => m.random

/-- The machine with something else at a place. -/
def put (m : Machine) : (p : Place) → p.Content → Machine
  | .memory, memory => { m with memory := memory }
  | .register x, b => m.setReg x b
  | .pc, a => { m with pc := a }
  | .index, a => { m with index := a }
  | .stack, stack => { m with stack := stack }
  | .delay, timer => { m with timers := { m.timers with delay := timer } }
  | .sound, timer => { m with timers := { m.timers with sound := timer } }
  | .raster, raster => { m with raster := raster }
  | .keypad, keypad => { m with keypad := keypad }
  | .state, state => { m with state := state }
  | .lastTrace, trace => { m with lastTrace := trace }
  | .random, random => { m with random := random }

variable {m m' : Machine} {p q : Place}

/-- Putting something into one place leaves the others alone. -/
theorem content_put_of_ne (m : Machine) (v : p.Content) (h : q ≠ p) :
    (m.put p v).content q = m.content q := by
  cases p with
  | register x =>
      cases q with
      | register y =>
          have hne : x ≠ y := fun heq => h (congrArg Place.register heq.symm)
          exact (m.registers.get_set x y v).trans (if_neg hne)
      | _ => rfl
  | _ => cases q <;> trivial

/-- The places are all that there is to a machine. -/
theorem eq_of_content (h : ∀ p, m'.content p = m.content p) : m' = m := by
  rcases m with ⟨memory, registers, pc, index, stack, ⟨delay, sound⟩, raster, keypad, state,
    trace, random⟩
  rcases m' with ⟨memory', registers', pc', index', stack', ⟨delay', sound'⟩, raster', keypad',
    state', trace', random'⟩
  have hregisters : registers' = registers := Registers.ext_get fun x => h (.register x)
  have hmemory : memory' = memory := h .memory
  have hpc : pc' = pc := h .pc
  have hindex : index' = index := h .index
  have hstack : stack' = stack := h .stack
  have hdelay : delay' = delay := h .delay
  have hsound : sound' = sound := h .sound
  have hraster : raster' = raster := h .raster
  have hkeypad : keypad' = keypad := h .keypad
  have hstate : state' = state := h .state
  have htrace : trace' = trace := h .lastTrace
  have hrandom : random' = random := h .random
  rw [hregisters, hmemory, hpc, hindex, hstack, hdelay, hsound, hraster, hkeypad, hstate, htrace,
    hrandom]

/-- From `m` to `m'` nothing has changed outside of some places. -/
def SameOutside (places : List Place) (m m' : Machine) : Prop :=
  ∀ p, p ∉ places → m'.content p = m.content p

namespace SameOutside

variable {places : List Place}

/-- A machine agrees with itself. -/
theorem refl (places : List Place) (m : Machine) : SameOutside places m m :=
  fun _ _ => rfl

/-- Machines that agree outside of some places agree outside of more. -/
theorem mono {wider : List Place} (h : SameOutside places m m')
    (hsub : ∀ p ∈ places, p ∈ wider) : SameOutside wider m m' :=
  fun p hp => h p (mt (hsub p) hp)

/-- Putting something into one of the places keeps the agreement outside of them. -/
theorem put (h : SameOutside places m m') (hp : p ∈ places) (v : p.Content) :
    SameOutside places m (m'.put p v) := by
  intro q hq
  have hne : q ≠ p := fun heq => hq (heq ▸ hp)
  rw [m'.content_put_of_ne v hne, h q hq]

theorem one (m : Machine) (p : Place) (v : p.Content) : SameOutside [p] m (m.put p v) :=
  (refl [p] m).put List.mem_cons_self v

end SameOutside

section Execution

variable (m)

/-- A skip touches the program counter alone. -/
theorem sameOutside_skipIf (condition : Bool) : SameOutside [.pc] m (m.skipIf condition) := by
  cases condition with
  | false => exact .refl _ m
  | true => exact .one m .pc m.pc.next

/-- A result with a flag touches its register and VF. -/
theorem sameOutside_setFlagged (x : Reg) (flag : Bool) (b : UInt8) :
    SameOutside [.register x, .register .vf] m (m.setFlagged x flag b) :=
  ((SameOutside.refl _ m).put (p := .register .vf) (by simp) flag.toUInt8).put
    (p := .register x) (by simp) b

/-- A call touches the program counter and the stack. -/
theorem sameOutside_enter (a : Address) : SameOutside [.pc, .stack] m (m.enter a).1 := by
  unfold enter
  split
  · next stack _ =>
      exact ((SameOutside.refl _ m).put (p := .stack) (by simp) stack).put (p := .pc) (by simp) a
  · exact .refl _ m

/-- A return touches the program counter and the stack. -/
theorem sameOutside_leave : SameOutside [.pc, .stack] m m.leave.1 := by
  unfold leave
  split
  · next a stack _ =>
      exact ((SameOutside.refl _ m).put (p := .stack) (by simp) stack).put (p := .pc) (by simp) a
  · exact .refl _ m

/-- The flag is cleared first, and only a sprite that was read is drawn. -/
theorem sameOutside_drawSprite (x y : Reg) (height : UInt8) :
    SameOutside [.raster, .register .vf] m (m.drawSprite x y height).1 := by
  have hcleared := (SameOutside.refl [.raster, .register .vf] m).put (p := .register .vf)
    (by simp) (0 : UInt8)
  unfold drawSprite
  dsimp only
  split
  · exact (hcleared.put (p := .raster) (by simp) _).put (p := .register .vf) (by simp) _
  · exact hcleared

/-- Registers that are filled one after the other are the listed ones, also when a byte is
missing on the way. -/
theorem get_fillRegisters_of_not_mem (memory : Memory) {xs : List Reg} {y : Reg} (hy : y ∉ xs)
    (a : Nat) (r : Registers) : (fillRegisters memory a xs r).1.get y = r.get y := by
  induction xs generalizing a r with
  | nil => rfl
  | cons x xs ih =>
      obtain ⟨hx, hxs⟩ := not_or.1 (mt List.mem_cons.2 hy)
      unfold fillRegisters
      split
      · rw [ih hxs, Registers.get_set, if_neg (Ne.symm hx)]
      · rfl

/-- A load touches the registers that it fills. -/
theorem sameOutside_loadRegisters (xs : List Reg) :
    SameOutside (xs.map .register) m (m.loadRegisters xs).1 := by
  intro p hp
  cases p with
  | register y =>
      have hy : y ∉ xs := fun hmem => hp (List.mem_map_of_mem hmem)
      exact get_fillRegisters_of_not_mem m.memory hy m.index.toNat m.registers
  | _ => rfl

/-- An instruction changes nothing outside of its footprint. -/
theorem sameOutside_execute (i : Instruction) : SameOutside i.footprint m (m.execute i).1 := by
  cases i with
  | sys a => exact .refl _ m
  | ret => exact m.sameOutside_leave
  | call a => exact m.sameOutside_enter a
  | skipIfByte | skipUnlessByte | skipIfSame | skipUnlessSame | skipIfHeld | skipUnlessHeld =>
      exact m.sameOutside_skipIf _
  | add | sub | shiftRight | subFrom | shiftLeft => exact m.sameOutside_setFlagged _ _ _
  | draw x y height => exact m.sameOutside_drawSprite x y height
  | load x =>
      refine (m.sameOutside_loadRegisters x.upTo).mono ?_
      intro p hp
      obtain ⟨y, hy, rfl⟩ := List.mem_map.1 hp
      have hle : y ≤ x := Reg.mem_upTo.1 hy
      simpa [Instruction.footprint] using hle
  | random x mask =>
      exact ((SameOutside.refl _ m).put (p := .random) (by simp [Instruction.footprint]) _).put
        (p := .register x) (by simp [Instruction.footprint]) _
  | clear => exact .one m .raster _
  | jump | jumpOffset => exact .one m .pc _
  | setByte x | addByte x | copy x | or x | and x | xor x | readDelay x =>
      exact .one m (.register x) _
  | setIndex | addIndex | pointGlyph => exact .one m .index _
  | awaitKey => exact .one m .state _
  | setDelay => exact .one m .delay _
  | setSound => exact .one m .sound _
  | storeDecimal | store => exact .one m .memory _

/-- A call or return that is stopped has done nothing. -/
theorem execute_of_stopped {i : Instruction} (hi : i = .ret ∨ ∃ a, i = .call a)
    (h : (m.execute i).2 ≠ none) : (m.execute i).1 = m := by
  rcases hi with rfl | ⟨a, rfl⟩
  · change m.leave.2 ≠ none at h
    change m.leave.1 = m
    unfold leave at h ⊢
    split
    · next heq =>
        rw [heq] at h
        exact absurd rfl h
    · rfl
  · change (m.enter a).2 ≠ none at h
    change (m.enter a).1 = m
    unfold enter at h ⊢
    split
    · next heq =>
        rw [heq] at h
        exact absurd rfl h
    · rfl

end Execution

/-- **The footprint of an instruction.**  Whatever the machine and the fields of the
instruction are, and whether it is carried out or stopped, what there is at any place outside
of its footprint is the same afterwards as before.  Where the footprint is empty, that is the
whole machine.  A call or a return that is stopped does not even change the program counter
and the call stack. -/
theorem instruction_footprint (m : Machine) (i : Instruction) :
    (∀ p, p ∉ i.footprint → (m.execute i).1.content p = m.content p) ∧
    (i.footprint = [] → (m.execute i).1 = m) ∧
    (i = .ret ∨ (∃ a, i = .call a) → (m.execute i).2 ≠ none → (m.execute i).1 = m) := by
  refine ⟨m.sameOutside_execute i, ?_, m.execute_of_stopped⟩
  intro hempty
  apply eq_of_content
  intro p
  apply m.sameOutside_execute i
  rw [hempty]
  exact List.not_mem_nil

/-- A machine with sixteen calls under way, whose index register points to the last byte of
memory. -/
def atLimits : Machine :=
  { start .blank (.ofSeed 7) with stack := .full 0x202, index := 0xFFF }

/-- A load of three registers is stopped behind the first, a machine routine does nothing, and
a call finds no room. -/
theorem atLimits_footprint :
    (atLimits.execute (.load 2)).2 = some (.outOfBounds 0x1000) ∧
    .register 3 ∉ (Instruction.load 2).footprint ∧
    (atLimits.execute (.load 2)).1.content (.register 3) = atLimits.content (.register 3) ∧
    (atLimits.execute (.sys 0x123)).1 = atLimits ∧
    (atLimits.execute (.call 0x300)).2 ≠ none ∧
    (atLimits.execute (.call 0x300)).1 = atLimits := by
  have hload : (atLimits.execute (.load 2)).2 = some (.outOfBounds 0x1000) := rfl
  have hthree : Place.register 3 ∉ (Instruction.load 2).footprint := by decide
  have hcall : (atLimits.execute (.call 0x300)).2 ≠ none := by decide
  exact ⟨hload, hthree, (instruction_footprint atLimits (.load 2)).1 _ hthree,
    (instruction_footprint atLimits (.sys 0x123)).2.1 rfl, hcall,
    (instruction_footprint atLimits (.call 0x300)).2.2 (Or.inr ⟨0x300, rfl⟩) hcall⟩

end Machine

end Chip8
