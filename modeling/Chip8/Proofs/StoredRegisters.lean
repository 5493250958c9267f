import Chip8.Proofs.Execution
import Chip8.Proofs.Moves
import Chip8.Proofs.PartialTransfer

/-!
# Stored registers can be loaded

Programs keep registers in memory across a stretch in which they need them for something
else: `FX55` stores them, `FX65` loads them again.  This works where the bytes are behind the
font and inside memory, for any stretch in which nothing is stored: instructions that are
carried out or stopped, one by one or by steps and frames, and whatever the host does beside
them.  Neither instruction moves the index register, so the other way round a load and a
store put the same bytes back to where they came from.

* `Machine.attemptedAt?` — the instructions that a run sets out to execute, whether they are
  carried out or not;
* `Machine.memory_after` — a run keeps memory if none of them stores;
* `Machine.exists_store`, `Machine.exists_load` — transfers for which there is room;
* `Machine.stored_loads_back` — the two round trips.
-/

namespace Chip8

/-- What a host does that neither writes memory by itself nor loads a program. -/
def Operation.leavesMemory : Operation → Bool
  | .load _ | .write .. => false
  | _ => true

/-- Only the two stores write memory. -/
theorem Instruction.memory_not_mem_footprint {i : Instruction}
    (h : ∀ x, i ≠ .store x ∧ i ≠ .storeDecimal x) : .memory ∉ i.footprint := by
  cases i with
  | store x => exact absurd rfl (h x).1
  | storeDecimal x => exact absurd rfl (h x).2
  | _ => simp [footprint]

/-- Memories that read alike are the same. -/
theorem Memory.eq_of_read {m m' : Memory} (h : ∀ a, m'.read a = m.read a) : m' = m := by
  rcases m with ⟨bytes⟩
  rcases m' with ⟨bytes'⟩
  have hbytes : bytes' = bytes := by
    apply Vector.ext
    intro a ha
    have hread := h a
    rw [read_eq_ok ha, read_eq_ok ha] at hread
    exact Except.ok.inj hread
  rw [hbytes]

namespace Machine

/-- The instruction that an operation sets out to execute, if there is one.  It may be
stopped. -/
def attempts? (m : Machine) : Operation → Option Instruction
  | .execute i => some i
  | .step =>
      match m.state with
      | .running => (m.memory.word m.pc).toOption.bind Instruction.decode?
      | _ => none
  | _ => none

/-- The instruction that the move at a moment sets out to execute, if there is one. -/
def attemptedAt? (m : Machine) (ops : List Operation) (n : Nat) : Option Instruction :=
  (m.moves ops)[n]?.bind (m.moment ops n).attempts?

section Memory

variable {m : Machine} {op : Operation} {ops : List Operation}

/-- What a step sets out to execute is what the word decodes to. -/
theorem attempts?_step {word : Opcode} {i : Instruction} (hrun : m.state = .running)
    (hword : m.memory.word m.pc = .ok word) (hdecode : Instruction.decode? word = some i) :
    m.attempts? .step = some i := by
  simp only [attempts?, hrun, hword]
  exact hdecode

/-- A step that does not set out to store leaves memory alone. -/
theorem memory_step (h : ∀ i, m.attempts? .step = some i → .memory ∉ i.footprint) :
    m.step.1.memory = m.memory := by
  cases hstate : m.state with
  | halted f => rw [step_of_halted hstate]
  | awaitingKey x => rw [step_of_awaitingKey hstate]
  | running =>
      rcases step_cases hstate with ⟨e, -, hstep⟩ | ⟨word, -, -, hstep⟩ |
        ⟨word, i, e, hword, hdecode, -, hstep⟩ | ⟨word, i, hword, hdecode, -, hstep⟩
      · rw [hstep]
        rfl
      · rw [hstep]
        rfl
      · rw [hstep]
        exact m.fetched.sameOutside_execute i .memory (h i (attempts?_step hstate hword hdecode))
      · rw [hstep]
        exact m.fetched.sameOutside_execute i .memory (h i (attempts?_step hstate hword hdecode))

/-- A move that sets out to execute nothing that may change memory keeps it. -/
theorem memory_perform (hleaves : op.leavesMemory = true) (hframe : op.isFrame = false)
    (h : ∀ i, m.attempts? op = some i → .memory ∉ i.footprint) :
    (m.perform op).1.memory = m.memory := by
  have hproceed {α : Type} {result : Except MachineError α} {next : α → Machine × Reply}
      (hnext : ∀ a, result = .ok a → (next a).1.memory = m.memory) :
      (m.proceed result next).1.memory = m.memory :=
    proceed_preserves (P := fun m' => m'.memory = m.memory) rfl hnext
  cases op with
  | execute i => exact m.sameOutside_execute i .memory (h i rfl)
  | step => exact memory_step h
  | fetch =>
      apply hproceed
      rintro ⟨word, m'⟩ heq
      rw [(fetch_eq_ok heq).2]
  | keyDown code =>
      apply hproceed
      intro m' heq
      obtain ⟨keypad, -, ⟨x, -, rfl⟩ | ⟨-, rfl⟩⟩ := keyDown_eq_ok heq
      · rfl
      · rfl
  | keyUp code =>
      apply hproceed
      intro m' heq
      obtain ⟨keypad, -, rfl⟩ := keyUp_eq_ok heq
      rfl
  | push a => exact hproceed fun _ _ => rfl
  | pop => exact hproceed fun _ _ => rfl
  | runFrame => cases hframe
  | load | write => cases hleaves
  | tick | takeFrame | setPc | setIndex | setReg | setDelay | setSound => rfl

/-- The moves of operations that leave memory alone leave it alone. -/
theorem leavesMemory_of_mem_moves (hops : ∀ op ∈ ops, op.leavesMemory = true)
    {move : Operation} (hmove : move ∈ m.moves ops) :
    move.leavesMemory = true ∧ move.isFrame = false := by
  rcases mem_moves hmove with rfl | rfl | ⟨hmem, hframe⟩
  · exact ⟨rfl, rfl⟩
  · exact ⟨rfl, rfl⟩
  · exact ⟨hops move hmem, hframe⟩

/-- A run that never sets out to execute anything that may change memory keeps it. -/
theorem memory_after (hops : ∀ op ∈ ops, op.leavesMemory = true)
    (h : ∀ n i, m.attemptedAt? ops n = some i → .memory ∉ i.footprint) :
    (m.after ops).memory = m.memory := by
  have hmoment : ∀ n, (m.moment ops n).memory = m.memory := by
    intro n
    induction n with
    | zero => rfl
    | succ n ih =>
        cases hmove : (m.moves ops)[n]? with
        | none => rw [moment_of_no_move hmove, ih]
        | some op =>
            obtain ⟨hleaves, hframe⟩ :=
              leavesMemory_of_mem_moves hops (List.mem_of_getElem? hmove)
            rw [moment_of_move hmove, memory_perform hleaves hframe, ih]
            intro i hi
            apply h n i
            rw [attemptedAt?, hmove]
            exact hi
  have hlast := m.moment_movesBefore ops ops.length
  rw [List.take_length] at hlast
  rw [← hlast]
  exact hmoment _

/-- Where there are no steps, what a run sets out to execute is what the host gives it. -/
theorem mem_of_attemptedAt? {n : Nat} {i : Instruction}
    (hops : ∀ op ∈ ops, op ≠ .step ∧ op.isFrame = false) (h : m.attemptedAt? ops n = some i) :
    .execute i ∈ ops := by
  unfold attemptedAt? at h
  rw [moves_of_no_frame fun op hop => (hops op hop).2] at h
  obtain ⟨op, hget, hattempts⟩ := Option.bind_eq_some_iff.1 h
  have hmem := List.mem_of_getElem? hget
  cases op with
  | execute j =>
      cases hattempts
      exact hmem
  | step => exact absurd rfl (hops _ hmem).1
  | _ => cases hattempts

end Memory

section Room

variable {m : Machine} {x : Reg}

/-- A store for which there is room behind the font is carried out. -/
theorem exists_store (hfont : 80 ≤ m.index.toNat) (hend : m.index.toNat + x.val ≤ 4095) :
    ∃ memory : Memory, m.execute (.store x) = ({ m with memory := memory }, none) ∧
      (∀ y, y ≤ x → memory.read (m.index.toNat + y.val) = .ok (m.reg y)) ∧
      ∀ a, a < m.index.toNat ∨ m.index.toNat + x.val < a → memory.read a = m.memory.read a := by
  obtain ⟨k, hstores⟩ := m.exists_stores (x.upTo.map m.reg)
  have hlength : (x.upTo.map m.reg).length = x.val + 1 := by
    rw [List.length_map, Reg.length_upTo]
  have hstops := hstores.stops
  rw [hlength] at hstops
  obtain ⟨rfl, hnone⟩ := hstops.eq_of_allowed fun j hj => ⟨by omega, by omega⟩
  have hwritten := hstores.written
  rw [← List.map_take] at hwritten
  refine ⟨_, Prod.ext hstores.rest hnone, ?_, ?_⟩
  · intro y hy
    exact read_of_hasBytes (Nat.le_refl _) hwritten (Nat.lt_succ_of_le hy)
  · intro a ha
    exact hstores.elsewhere a (by omega)

/-- A load for which there is room is carried out. -/
theorem exists_load (hend : m.index.toNat + x.val ≤ 4095) :
    ∃ registers : Registers, m.execute (.load x) = ({ m with registers := registers }, none) ∧
      (∀ y, y ≤ x → m.memory.read (m.index.toNat + y.val) = .ok (registers.get y)) ∧
      ∀ y, x < y → registers.get y = m.reg y := by
  obtain ⟨k, hloads⟩ := m.exists_loads x
  obtain ⟨rfl, hnone⟩ := hloads.stops.eq_of_allowed fun j hj => by
    change m.index.toNat + j ≤ 4095
    omega
  refine ⟨_, Prod.ext hloads.rest hnone, ?_, ?_⟩
  · intro y hy
    exact hloads.filled y (Nat.lt_succ_of_le hy)
  · intro y hy
    exact hloads.others y (Nat.succ_le_of_lt hy)

end Room

/-- **Stored registers load back.**  Let the addresses from the index register on have room
for V0 to VX behind the font.  Then `FX55` succeeds.  After it let anything happen short of a
store: neither `FX55` nor `FX33` is attempted, and the host neither writes memory nor loads a
program.  With the index register back at its place, `FZ65` succeeds for every Z up to X,
gives V0 to VZ what they held at the store, and leaves the registers above alone.  And `FX65`
followed by `FX55` succeeds and leaves the memory as it was.  The index register is the same
behind each of them. -/
theorem stored_loads_back {m : Machine} {x : Reg} (hfont : 80 ≤ m.index.toNat)
    (hend : m.index.toNat + x.val ≤ 4095) :
    (∃ stored, m.execute (.store x) = (stored, none) ∧ stored.index = m.index ∧
      ∀ ops : List Operation, (∀ op ∈ ops, op.leavesMemory = true) →
        (∀ n i, stored.attemptedAt? ops n = some i →
          ∀ y, i ≠ .store y ∧ i ≠ .storeDecimal y) →
        ∀ z, z ≤ x → ∃ loaded,
          { stored.after ops with index := m.index }.execute (.load z) = (loaded, none) ∧
          loaded.index = m.index ∧
          (∀ y, y ≤ z → loaded.reg y = m.reg y) ∧
          ∀ y, z < y → loaded.reg y = (stored.after ops).reg y) ∧
    ∃ loaded stored, m.execute (.load x) = (loaded, none) ∧ loaded.index = m.index ∧
      loaded.execute (.store x) = (stored, none) ∧ stored.index = m.index ∧
      stored.memory = m.memory := by
  constructor
  · obtain ⟨memory, hstore, hbytes, -⟩ := exists_store hfont hend
    refine ⟨_, hstore, rfl, ?_⟩
    intro ops hops hattempts z hz
    have hmemory := memory_after hops fun n i hi =>
      Instruction.memory_not_mem_footprint (hattempts n i hi)
    have hroom : m.index.toNat + z.val ≤ 4095 := by
      have hle : z.val ≤ x.val := hz
      omega
    obtain ⟨registers, hload, hfilled, hothers⟩ :=
      exists_load (m := { after _ ops with index := m.index }) hroom
    refine ⟨_, hload, rfl, ?_, hothers⟩
    intro y hy
    have hread := hfilled y hy
    rw [hmemory] at hread
    exact Except.ok.inj (hread.symm.trans (hbytes y (Nat.le_trans hy hz)))
  · obtain ⟨registers, hload, hfilled, -⟩ := exists_load hend
    obtain ⟨memory, hstore, hbytes, helsewhere⟩ :=
      exists_store (m := { m with registers := registers }) hfont hend
    refine ⟨_, _, hload, rfl, hstore, rfl, ?_⟩
    apply Memory.eq_of_read
    intro a
    by_cases ha : a < m.index.toNat ∨ m.index.toNat + x.val < a
    · exact helsewhere a ha
    · obtain ⟨j, rfl⟩ : ∃ j, a = m.index.toNat + j := ⟨a - m.index.toNat, by omega⟩
      have hj : j ≤ x.val := by omega
      let y : Reg := ⟨j, by omega⟩
      exact (hbytes y hj).trans (hfilled y hj).symm

/-- A machine whose index register points to the last sixteen bytes of memory, with the same
byte in every register. -/
def atMemoryEnd : Machine :=
  { start .blank (.ofSeed 7) with index := 0xFF0, registers := ⟨Vector.replicate 16 0xAB⟩ }

/-- All registers are stored, up to the last byte of memory.  Two of them are changed, and the
index register with them; a load of the lower half brings one of the two back. -/
theorem atMemoryEnd_loads_back :
    let ops : List Operation := [.execute (.setByte 7 1), .execute (.setByte 8 2), .tick,
      .execute (.load 3), .execute (.addIndex 0)]
    80 ≤ atMemoryEnd.index.toNat ∧ atMemoryEnd.index.toNat + (0xF : Reg).val ≤ 4095 ∧
    ∃ stored loaded, atMemoryEnd.execute (.store 0xF) = (stored, none) ∧
      { stored.after ops with index := 0xFF0 }.execute (.load 7) = (loaded, none) ∧
      loaded.reg 7 = 0xAB ∧ loaded.reg 8 = (stored.after ops).reg 8 := by
  intro ops
  have hfont : 80 ≤ atMemoryEnd.index.toNat := by decide
  have hend : atMemoryEnd.index.toNat + (0xF : Reg).val ≤ 4095 := by decide
  have hleaves : ∀ op ∈ ops, op.leavesMemory = true := by decide
  have hplain : ∀ op ∈ ops, op ≠ .step ∧ op.isFrame = false := by decide
  obtain ⟨⟨stored, hstore, -, hback⟩, -⟩ := stored_loads_back hfont hend
  have hspared : ∀ n i, stored.attemptedAt? ops n = some i →
      ∀ y, i ≠ .store y ∧ i ≠ .storeDecimal y := by
    intro n i hi
    have hmem := mem_of_attemptedAt? hplain hi
    simp only [ops, List.mem_cons, Operation.execute.injEq, reduceCtorEq, List.not_mem_nil,
      or_false, false_or] at hmem
    rcases hmem with rfl | rfl | rfl | rfl <;> simp
  obtain ⟨loaded, hload, -, hlow, hhigh⟩ := hback ops hleaves hspared 7 (by decide)
  exact ⟨hfont, hend, stored, loaded, hstore, hload, (hlow 7 (Nat.le_refl _)).trans rfl,
    hhigh 8 (by decide)⟩

end Machine

end Chip8
