import Chip8.Proofs.Independence
import Chip8.Proofs.Standstill

/-!
# One stream of random bytes

Each `CXNN` takes the next byte of the stream of the seed, and nothing else takes one or
goes back: no other instruction, no fault and no load.  So the byte that it takes is told
by the number of such instructions executed before it, in the whole life of the machine.
Up to the first of them the seed does not show at all.

* `Machine.random_perform` — what one move takes from the stream;
* `Machine.perform_withRandom` — an operation in which no `CXNN` is executed does not
  look at the source of random bytes;
* `Machine.moment_withRandom` — nor do the moments of a run before the first `CXNN`;
* `Machine.one_random_stream` — which byte each `CXNN` takes, and what two seeds have in
  common.
-/

namespace Chip8

/-- The byte number `j` of the stream of a seed: the low byte of the word number `j`. -/
def Generator.byteOf (seed : UInt64) (j : Nat) : UInt8 :=
  (KeyStream.word (KeyStream.keyOfSeed seed) j).toUInt8

namespace Machine

variable {m : Machine} {op : Operation} {ops : List Operation} {i : Instruction} {n : Nat}

/-- How often `CXNN` is executed by the first `n` moves. -/
def drawsBefore (m : Machine) (ops : List Operation) (n : Nat) : Nat :=
  (m.executedBefore ops n).countP (·.uses .random)

section Stream

/-- A step of `CXNN` takes the next byte. -/
theorem step_draw {x : Reg} {mask : UInt8} (h : m.executes? .step = some (.random x mask)) :
    m.step.1.random = m.random.next.2 ∧ m.step.1.reg x = mask &&& m.random.next.1 := by
  obtain ⟨word, -, -, -, hstep⟩ := step_eq_of_status (executes?_eq_some h).2
  rw [hstep]
  exact ⟨rfl, m.registers.get_set_self x _⟩

/-- Only `CXNN` uses the source of random bytes. -/
theorem exists_random_of_uses (h : i.uses .random = true) : ∃ x mask, i = .random x mask := by
  cases i with
  | random x mask => exact ⟨x, mask, rfl⟩
  | _ => cases h

/-- A move takes a byte if it executes `CXNN`, and else none. -/
theorem random_perform (hordinary : op.isOrdinary = true) (hframe : op.isFrame = false) :
    (m.perform op).1.random = { m.random with
      taken := m.random.taken + (m.executes? op).toList.countP (·.uses .random) } := by
  cases op with
  | load program =>
      rcases m.perform_load program with hload | hload
      · rw [hload]
        rfl
      · rw [hload]
        rfl
  | step =>
      change m.step.1.random = _
      cases hexecutes : m.executes? .step with
      | none =>
          rw [step_random (by simp [hexecutes])]
          rfl
      | some i =>
          cases huses : i.uses .random with
          | false =>
              rw [step_random]
              · simp [huses]
              · intro j hj
                rw [hexecutes] at hj
                cases hj
                exact huses
          | true =>
              obtain ⟨x, mask, rfl⟩ := exists_random_of_uses huses
              rw [(step_draw hexecutes).1]
              rfl
  | tick => rfl
  | takeFrame => rfl
  | keyUp code =>
      obtain ⟨keypad, hkeypad⟩ := m.perform_keyUp code
      rw [hkeypad]
      rfl
  | keyDown code =>
      rcases m.perform_keyDown code with ⟨keypad, hdown⟩ | ⟨x, keypad, registers, -, hdown⟩
      · rw [hdown]
        rfl
      · rw [hdown]
        rfl
  | runFrame => cases hframe
  | _ => cases hordinary

/-- One move further on, a draw is counted if it was executed. -/
theorem drawsBefore_succ (m : Machine) (ops : List Operation) (n : Nat) :
    m.drawsBefore ops (n + 1) =
      m.drawsBefore ops n + (m.executedAt? ops n).toList.countP (·.uses .random) := by
  rw [drawsBefore, executedBefore_succ, List.countP_append, drawsBefore]

/-- As many bytes have been taken as `CXNN` was executed. -/
theorem random_moment (hops : ∀ op ∈ ops, op.isOrdinary = true) (n : Nat) :
    (m.moment ops n).random =
      { m.random with taken := m.random.taken + m.drawsBefore ops n } := by
  induction n with
  | zero => rfl
  | succ n ih =>
      rw [drawsBefore_succ]
      unfold executedAt?
      cases hmove : (m.moves ops)[n]? with
      | none =>
          rw [moment_of_no_move hmove, ih]
          rfl
      | some op =>
          obtain ⟨hordinary, hframe⟩ := isOrdinary_of_mem_moves hops (List.mem_of_getElem? hmove)
          rw [moment_of_move hmove, random_perform hordinary hframe, ih, Option.bind_some,
            Nat.add_assoc]

end Stream

section Seeds

/-- The same machine around another source of random bytes. -/
def withRandom (m : Machine) (random : Generator) : Machine :=
  { m with random := random }

/-- Another source of random bytes is a change of this part alone. -/
theorem changes_withRandom (random : Generator) :
    Changes .random fun m => m.withRandom random :=
  .random fun _ => random

variable (random : Generator)

/-- A step without `CXNN` is the same with another source of random bytes. -/
theorem step_withRandom (h : ∀ i, m.executes? .step = some i → i.uses .random = false) :
    (m.withRandom random).step = (m.step.1.withRandom random, m.step.2) :=
  (changes_withRandom random).step fun i hi => h i (executes?_step hi)

/-- A move that executes no `CXNN` does not look at the source of random bytes. -/
theorem move_withRandom (hordinary : op.isOrdinary = true) (hframe : op.isFrame = false)
    (hdraws : ∀ i, m.executes? op = some i → i.uses .random = false) :
    (m.withRandom random).perform op =
      ((m.perform op).1.withRandom random, (m.perform op).2) := by
  cases op with
  | load program =>
      by_cases hfits : program.size ≤ Memory.programCapacity
      · rw [perform_load_of_fits _ hfits, perform_load_of_fits _ hfits]
        rfl
      · simp only [perform, load_of_large _ (Nat.lt_of_not_le hfits), proceed]
  | step =>
      simp only [perform, step_withRandom random hdraws]
  | tick => rfl
  | takeFrame => rfl
  | keyUp code =>
      simp only [perform, keyUp, withRandom]
      cases m.keypad.release code <;> rfl
  | keyDown code =>
      simp only [perform, keyDown, withRandom]
      cases m.keypad.press code with
      | error e => rfl
      | ok keypad =>
          simp only [Except.map, proceed]
          split <;> rfl
  | runFrame => cases hframe
  | _ => cases hordinary

/-- No move of a list executes `CXNN`. -/
def Drawless : Machine → List Operation → Prop
  | _, [] => True
  | m, op :: ops =>
      (∀ i, m.executes? op = some i → i.uses .random = false) ∧ Drawless (m.perform op).1 ops

/-- A sequence is without draws if both of its parts are. -/
theorem drawless_append {ops' : List Operation} :
    m.Drawless (ops ++ ops') ↔ m.Drawless ops ∧ (m.after ops).Drawless ops' := by
  induction ops generalizing m with
  | nil => simp [Drawless]
  | cons op ops ih => simp only [List.cons_append, Drawless, ih, after_cons, and_assoc]

/-- Moves that have not executed `CXNN` are without draws. -/
theorem drawless_of_drawsBefore (h : m.drawsBefore ops n = 0) :
    m.Drawless ((m.moves ops).take n) := by
  induction n with
  | zero => trivial
  | succ n ih =>
      rw [drawsBefore_succ] at h
      rw [List.take_add_one, drawless_append]
      refine ⟨ih (Nat.eq_zero_of_add_eq_zero_right h), ?_⟩
      have hmove := Nat.eq_zero_of_add_eq_zero_left h
      unfold executedAt? at hmove
      cases hop : (m.moves ops)[n]? with
      | none => trivial
      | some op =>
          refine ⟨?_, trivial⟩
          intro i hi
          have hi' : (m.moment ops n).executes? op = some i := hi
          rw [hop, Option.bind_some, hi'] at hmove
          simpa using hmove

/-- Steps that execute no `CXNN` are taken with another source as well.  The frame may
take more steps behind them, and from the first `CXNN` on their number may differ. -/
theorem le_stepsTaken_withRandom {s : Nat} (hn : n ≤ stepsTaken s m)
    (h : m.Drawless (List.replicate n .step)) : n ≤ stepsTaken s (m.withRandom random) := by
  induction s generalizing m n with
  | zero => exact hn
  | succ s ih =>
      cases n with
      | zero => exact Nat.zero_le _
      | succ n =>
          have hstep := step_withRandom random h.1
          have hrest : m.step.1.Drawless (List.replicate n .step) := h.2
          unfold stepsTaken at hn ⊢
          rcases hm : m.step with ⟨m', fault | i | _⟩
          · simpa only [hstep, hm] using hn
          · simp only [hm] at hn hrest
            simp only [hstep, hm]
            change n + 1 ≤ if m'.isWaiting = true then 1 else _
            by_cases hwait : m'.isWaiting = true
            · rw [if_pos hwait] at hn ⊢
              exact hn
            · rw [if_neg hwait] at hn ⊢
              exact Nat.succ_le_succ (ih (Nat.le_of_succ_le_succ hn) hrest)
          · simpa only [hstep, hm] using hn

/-- Steps among which no `CXNN` is executed lead to the same machine around another
source. -/
theorem runSteps_withRandom {s : Nat}
    (h : m.Drawless (List.replicate (stepsTaken s m) .step)) :
    stepsTaken s (m.withRandom random) = stepsTaken s m ∧
      (m.withRandom random).runSteps s =
        ((m.runSteps s).1.withRandom random, (m.runSteps s).2) := by
  induction s generalizing m with
  | zero => exact ⟨rfl, rfl⟩
  | succ s ih =>
      have hfirst : ∀ i, m.executes? .step = some i → i.uses .random = false := by
        obtain ⟨k, hk⟩ := Nat.exists_eq_add_one_of_ne_zero (Nat.ne_of_gt (stepsTaken_pos s m))
        rw [hk] at h
        exact h.1
      have hstep := step_withRandom random hfirst
      unfold stepsTaken at h ⊢
      unfold runSteps
      rcases hm : m.step with ⟨m', fault | i | _⟩
      · simp only [hstep, hm, and_self]
      · simp only [hstep, hm] at h ⊢
        change (if m'.isWaiting = true then 1 else _) = _ ∧
          (if m'.isWaiting = true then _ else _) = _
        by_cases hwait : m'.isWaiting = true
        · simp only [if_pos hwait, and_self]
        · simp only [if_neg hwait] at h ⊢
          have hrest : m.step.1.Drawless (List.replicate (stepsTaken s m') .step) := h.2
          rw [hm] at hrest
          obtain ⟨htaken, hrun⟩ := ih hrest
          rw [htaken]
          exact ⟨rfl, hrun⟩
      · simp only [hstep, hm, and_self]

/-- Ticks are without draws. -/
theorem drawless_ticks (n : Nat) (m : Machine) : m.Drawless (List.replicate n .tick) := by
  induction n generalizing m with
  | zero => trivial
  | succ n ih =>
      refine ⟨?_, ih m.tick⟩
      intro i h
      cases h

/-- Ticks are the same with another source of random bytes. -/
theorem tickBy_withRandom (n : Nat) (m : Machine) :
    (m.withRandom random).tickBy n = (m.tickBy n).withRandom random := by
  induction n generalizing m with
  | zero => rfl
  | succ n ih => exact ih m.tick

/-- An operation in which no `CXNN` is executed does not look at the source of random
bytes. -/
theorem perform_withRandom (hordinary : op.isOrdinary = true)
    (h : m.Drawless (m.movesOf op)) :
    (m.withRandom random).movesOf op = m.movesOf op ∧
      (m.withRandom random).perform op =
        ((m.perform op).1.withRandom random, (m.perform op).2) := by
  cases hframe : op.isFrame with
  | false =>
      rw [movesOf_of_not_frame hframe] at h
      rw [movesOf_of_not_frame hframe, movesOf_of_not_frame hframe]
      exact ⟨rfl, move_withRandom random hordinary hframe h.1⟩
  | true =>
      cases op with
      | runFrame steps ticks =>
          obtain ⟨hsteps, -⟩ := drawless_append.1 h
          obtain ⟨htaken, hrun⟩ := runSteps_withRandom random hsteps
          simp only [movesOf, perform, runFrame, htaken, hrun]
          rcases m.runSteps steps with ⟨m', _ | fault⟩
          · simp only [tickBy_withRandom, and_self]
          · simp only [and_self]
      | _ => cases hframe

/-- A run in which no `CXNN` is executed does not look at the source of random bytes. -/
theorem performAll_withRandom (hops : ∀ op ∈ ops, op.isOrdinary = true)
    (h : m.Drawless (m.moves ops)) :
    (m.withRandom random).performAll ops =
      ((m.performAll ops).1.withRandom random, (m.performAll ops).2) := by
  induction ops generalizing m with
  | nil => rfl
  | cons op ops ih =>
      obtain ⟨hop, hrest⟩ := drawless_append.1 h
      rw [after_movesOf] at hrest
      have hperform := (perform_withRandom random (hops op List.mem_cons_self) hop).2
      have hops' : ∀ op ∈ ops, op.isOrdinary = true :=
        fun op' hmem => hops op' (List.mem_cons_of_mem op hmem)
      simp only [performAll, hperform, ih hops' hrest]

/-- Of one operation, the moves before the first `CXNN` are the same with another source:
either these are all its moves, or the operation is a frame and they are steps, since the
frame is cut off before its ticks. -/
theorem take_movesOf_withRandom (hordinary : op.isOrdinary = true)
    (h : m.Drawless ((m.movesOf op).take n)) :
    m.Drawless (m.movesOf op) ∨
      n ≤ (m.movesOf op).length ∧ n ≤ ((m.withRandom random).movesOf op).length ∧
        ((m.withRandom random).movesOf op).take n = (m.movesOf op).take n := by
  cases op with
  | runFrame steps ticks =>
      by_cases hn : n ≤ stepsTaken steps m
      · right
        have htake {s : Machine} (hs : n ≤ stepsTaken steps s) :
            n ≤ (s.movesOf (.runFrame steps ticks)).length ∧
              (s.movesOf (.runFrame steps ticks)).take n = List.replicate n .step := by
          have hlength : n ≤ (List.replicate (stepsTaken steps s) Operation.step).length := by
            rwa [List.length_replicate]
          constructor
          · rw [movesOf, List.length_append]
            exact Nat.le_add_right_of_le hlength
          · rw [movesOf, List.take_append_of_le_length hlength, List.take_replicate,
              Nat.min_eq_left hs]
        obtain ⟨hle, hmoves⟩ := htake hn
        rw [hmoves] at h ⊢
        obtain ⟨hle', hmoves'⟩ := htake (le_stepsTaken_withRandom random hn h)
        exact ⟨hle, hle', hmoves'⟩
      · left
        have hall : (List.replicate (stepsTaken steps m) Operation.step).length ≤ n := by
          rw [List.length_replicate]
          exact Nat.le_of_not_le hn
        rw [movesOf, List.take_append, List.take_of_length_le hall] at h
        exact drawless_append.2 ⟨(drawless_append.1 h).1, drawless_ticks _ _⟩
  | execute | fetch | write | push | pop | setPc | setIndex | setReg | setDelay | setSound =>
      cases hordinary
  | _ =>
      cases n with
      | zero => exact Or.inr ⟨Nat.zero_le _, Nat.zero_le _, rfl⟩
      | succ n =>
          rw [List.take_of_length_le (Nat.le_add_left 1 n)] at h
          exact Or.inl h

/-- The moves of a run before the first `CXNN` are the same with another source of random
bytes.  Either the first operation is over by then, or it is a frame that is cut off, and
then nothing of the other operations is looked at. -/
theorem take_moves_withRandom (hops : ∀ op ∈ ops, op.isOrdinary = true)
    (h : m.Drawless ((m.moves ops).take n)) :
    ((m.withRandom random).moves ops).take n = (m.moves ops).take n := by
  induction ops generalizing m n with
  | nil => rfl
  | cons op ops ih =>
      have hordinary := hops op List.mem_cons_self
      have hops' : ∀ op ∈ ops, op.isOrdinary = true :=
        fun op' hmem => hops op' (List.mem_cons_of_mem op hmem)
      rw [moves, List.take_append] at h
      obtain ⟨hfirst, hrest⟩ := drawless_append.1 h
      rw [moves, moves]
      rcases take_movesOf_withRandom random hordinary hfirst with
        hall | ⟨hle, hle', htake⟩
      · obtain ⟨hmoves, hperform⟩ := perform_withRandom random hordinary hall
        have hbehind : (m.perform op).1.Drawless
            (((m.perform op).1.moves ops).take (n - (m.movesOf op).length)) := by
          by_cases hn : (m.movesOf op).length ≤ n
          · rwa [List.take_of_length_le hn, after_movesOf] at hrest
          · rw [Nat.sub_eq_zero_of_le (Nat.le_of_not_le hn)]
            trivial
        rw [List.take_append, List.take_append, hmoves, hperform, ih hops' hbehind]
      · rw [List.take_append_of_le_length hle, List.take_append_of_le_length hle', htake]

/-- The moments before the first `CXNN` are the same with another source of random bytes:
the same moves with the same answers have led there. -/
theorem moment_withRandom (hops : ∀ op ∈ ops, op.isOrdinary = true)
    (h : m.drawsBefore ops n = 0) :
    ((m.withRandom random).moves ops).take n = (m.moves ops).take n ∧
      (m.withRandom random).performAll ((m.moves ops).take n) =
        ((m.moment ops n).withRandom random, (m.performAll ((m.moves ops).take n)).2) := by
  have hquiet := drawless_of_drawsBefore h
  have hmoves : ∀ move ∈ (m.moves ops).take n, move.isOrdinary = true ∧ move.isFrame = false :=
    fun move hmem => isOrdinary_of_mem_moves hops (List.mem_of_mem_take hmem)
  refine ⟨take_moves_withRandom random hops hquiet, ?_⟩
  apply performAll_withRandom random fun move hmem => (hmoves move hmem).1
  rwa [moves_of_no_frame fun move hmem => (hmoves move hmem).2]

end Seeds

/-- A new machine whose random bytes are those of a seed. -/
def seeded (seed : UInt64) : Machine :=
  boot (.ofSeed seed)

/-- A `CXNN` puts the byte that comes next, masked, into its register. -/
theorem reg_moment_of_draw {x : Reg} {mask : UInt8}
    (h : m.executedAt? ops n = some (.random x mask)) :
    (m.moment ops (n + 1)).reg x = mask &&& (m.moment ops n).random.next.1 := by
  obtain ⟨op, hmove, hexecutes⟩ := Option.bind_eq_some_iff.1 h
  obtain ⟨rfl, -⟩ := executes?_eq_some hexecutes
  rw [moment_of_move hmove]
  exact (step_draw hexecutes).2

/-- **One stream of random bytes.**  Look at a machine made with a seed at any moment of
any ordinary operations.  As many words have been taken from the stream of the seed as
`CXNN` was executed so far, loads or not, so the next `CXNN` puts the byte with this
number, masked, into its register.  The machine after each operation is the machine at one
of these moments.  Before the first `CXNN` the machine makes the same moves with the same
answers as one made with another seed, and differs from it in nothing but the source of
random bytes; and if none is executed at all, then the operations themselves have the same
answers. -/
theorem one_random_stream (seed : UInt64) (hops : ∀ op ∈ ops, op.isOrdinary = true) (n : Nat) :
    ((seeded seed).moment ops n).random = { Generator.ofSeed seed with
      taken := (seeded seed).drawsBefore ops n } ∧
    (∀ x mask, (seeded seed).executedAt? ops n = some (.random x mask) →
      ((seeded seed).moment ops (n + 1)).reg x =
        mask &&& Generator.byteOf seed ((seeded seed).drawsBefore ops n)) ∧
    (∀ k, (seeded seed).moment ops ((seeded seed).movesBefore ops k) =
      (seeded seed).after (ops.take k)) ∧
    ∀ seed' : UInt64,
      ((seeded seed).drawsBefore ops n = 0 →
        ((seeded seed').moves ops).take n = ((seeded seed).moves ops).take n ∧
        (seeded seed').performAll (((seeded seed).moves ops).take n) =
          (((seeded seed).moment ops n).withRandom (.ofSeed seed'),
            ((seeded seed).performAll (((seeded seed).moves ops).take n)).2)) ∧
      ((seeded seed).drawsBefore ops ((seeded seed).moves ops).length = 0 →
        (seeded seed').performAll ops =
          (((seeded seed).after ops).withRandom (.ofSeed seed'),
            ((seeded seed).performAll ops).2)) := by
  have hrandom : ((seeded seed).moment ops n).random = { Generator.ofSeed seed with
      taken := (seeded seed).drawsBefore ops n } := by
    rw [random_moment hops]
    simp only [seeded, boot, start, Generator.ofSeed, Nat.zero_add]
  refine ⟨hrandom, ?_, (seeded seed).moment_movesBefore ops, ?_⟩
  · intro x mask hdraw
    rw [reg_moment_of_draw hdraw, hrandom]
    rfl
  · intro seed'
    have hseed : seeded seed' = (seeded seed).withRandom (.ofSeed seed') := rfl
    rw [hseed]
    refine ⟨moment_withRandom _ hops, ?_⟩
    intro hnone
    apply performAll_withRandom _ hops
    have hquiet := drawless_of_drawsBefore hnone
    rwa [List.take_length] at hquiet

/-- The program with the one instruction `C10F`. -/
def oneDraw : Array UInt8 := #[0xC1, 0x0F]

/-- The program draws with its first step. -/
theorem oneDraw_step (random : Generator) :
    (start (.fresh oneDraw) random).step.2 = .ok (.executed (.random 1 0x0F)) := by
  have hword : (start (.fresh oneDraw) random).memory.word 0x200 = .ok 0xC10F :=
    Memory.word_fresh (by decide) rfl
  exact congrArg Prod.snd (step_of_executed rfl hword rfl rfl)

/-- The program is loaded again behind its draw, and the second draw still takes the
second byte of the stream.  The first load is the same with another seed. -/
theorem oneDraw_takes_second :
    let ops : List Operation := [.load oneDraw, .step, .load oneDraw, .step]
    (∀ op ∈ ops, op.isOrdinary = true) ∧
    (seeded 7).drawsBefore ops 1 = 0 ∧
    (seeded 8).performAll [.load oneDraw] =
      (((seeded 7).moment ops 1).withRandom (.ofSeed 8), [.done]) ∧
    (seeded 7).drawsBefore ops 3 = 1 ∧
    ((seeded 7).moment ops 3).random = { Generator.ofSeed 7 with taken := 1 } ∧
    ((seeded 7).moment ops 4).reg 1 = 9 := by
  intro ops
  have hops : ∀ op ∈ ops, op.isOrdinary = true := by decide
  have hfits : oneDraw.size ≤ Memory.programCapacity := by decide
  have hload (m : Machine) :
      (m.perform (.load oneDraw)).1 = start (.fresh oneDraw) m.random := by
    rw [perform_load_of_fits _ hfits]
  have hexecuted (m : Machine) (p : Array UInt8) :
      m.executedAt? [.load p, .step, .load p, .step] 0 = none ∧
      m.executedAt? [.load p, .step, .load p, .step] 1 =
        (m.perform (.load p)).1.executes? .step ∧
      m.executedAt? [.load p, .step, .load p, .step] 2 = none ∧
      m.executedAt? [.load p, .step, .load p, .step] 3 =
        ((m.perform (.load p)).1.step.1.perform (.load p)).1.executes? .step :=
    ⟨rfl, rfl, rfl, rfl⟩
  obtain ⟨h₀, h₁, h₂, h₃⟩ := hexecuted (seeded 7) oneDraw
  rw [hload, executes?_step (oneDraw_step _)] at h₁ h₃
  have hnone : (seeded 7).drawsBefore ops 1 = 0 := by
    rw [drawsBefore_succ, h₀]
    rfl
  have hone : (seeded 7).drawsBefore ops 3 = 1 := by
    rw [drawsBefore_succ, h₂, drawsBefore_succ, h₁, hnone]
    rfl
  obtain ⟨hrandom, hreg, -⟩ := one_random_stream 7 hops 3
  obtain ⟨-, -, -, hseeds⟩ := one_random_stream 7 hops 1
  rw [hone] at hrandom hreg
  have hnine : 0x0F &&& Generator.byteOf 7 1 = 9 := by decide +kernel
  have hfirst := ((hseeds 8).1 hnone).2
  have hmoves (m : Machine) (p : Array UInt8) :
      (m.moves [.load p, .step, .load p, .step]).take 1 = [.load p] := rfl
  have hanswer (m : Machine) : (m.performAll [.load oneDraw]).2 = [.done] := by
    simp only [performAll, perform_load_of_fits _ hfits]
  rw [hmoves, hanswer] at hfirst
  exact ⟨hops, hnone, hfirst, hone, hrandom, (hreg _ _ h₃).trans hnine⟩

end Machine

end Chip8
