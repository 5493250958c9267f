import Chip8.Proofs.Operation

/-!
# Moves

A frame is many steps and then ticks, so what happens inside one cannot be seen
from the machines before and after it.  Here a sequence of operations is taken
apart into its moves: a frame becomes the steps that it takes and, unless one of
them failed, its ticks, and every other operation is a move already.  What is
said of the machine after each of the moves is then said of every machine on the
way, in the middle of a frame as well.

* `Machine.after`, `Machine.reply_getElem?` — the machine after some operations, and
  the answer of each of them;
* `Machine.moves`, `Machine.after_moves` — the moves of a sequence of operations
  lead to the same machine;
* `Machine.mem_moves` — they are steps, ticks and operations of the sequence;
* `Machine.moment` — the machine after a number of moves;
* `Machine.movesBefore`, `Machine.moment_movesBefore` — the machine after each operation is
  one of them;
* `Machine.executedAt?`, `Machine.executedBefore` — the instructions that the moves
  execute.
-/

namespace Chip8

namespace Operation

/-- What a host does that writes no part of the machine itself. -/
def isOrdinary : Operation → Bool
  | .load _ | .step | .runFrame .. | .tick | .keyDown _ | .keyUp _ | .takeFrame => true
  | _ => false

/-- A load of a program, whether it fits or not. -/
def isLoad : Operation → Bool
  | .load _ => true
  | _ => false

/-- A frame, which is more than one move. -/
def isFrame : Operation → Bool
  | .runFrame .. => true
  | _ => false

end Operation

namespace Machine

/-- The machine after some operations. -/
def after (m : Machine) (ops : List Operation) : Machine :=
  (m.performAll ops).1

@[simp] theorem after_nil (m : Machine) : m.after [] = m :=
  rfl

@[simp] theorem after_cons (m : Machine) (op : Operation) (ops : List Operation) :
    m.after (op :: ops) = (m.perform op).1.after ops :=
  rfl

/-- Operations that follow others act on the machine that those lead to. -/
@[simp] theorem after_append (m : Machine) (ops ops' : List Operation) :
    m.after (ops ++ ops') = (m.after ops).after ops' := by
  induction ops generalizing m with
  | nil => rfl
  | cons op ops ih => exact ih (m.perform op).1

/-- The machine one operation further on. -/
theorem after_take_succ (m : Machine) {ops : List Operation} {n : Nat} (h : n < ops.length) :
    m.after (ops.take (n + 1)) = ((m.after (ops.take n)).perform ops[n]).1 := by
  rw [List.take_succ_eq_append_getElem h, after_append]
  rfl

/-- The answer of each operation is the one that it gives after those before it. -/
theorem reply_getElem? (m : Machine) (ops : List Operation) (k : Nat) :
    (m.performAll ops).2[k]? = ops[k]?.map fun op => ((m.after (ops.take k)).perform op).2 := by
  induction ops generalizing m k with
  | nil => rfl
  | cons op ops ih =>
      cases k with
      | zero => rfl
      | succ k => exact ih (m.perform op).1 k

/-- The number of steps that `runSteps n` takes. -/
def stepsTaken : Nat → Machine → Nat
  | 0, _ => 0
  | n + 1, m =>
      match m.step with
      | (m', .ok (.executed _)) => if m'.isWaiting then 1 else stepsTaken n m' + 1
      | _ => 1

/-- A frame that is granted a step takes one. -/
theorem stepsTaken_pos (n : Nat) (m : Machine) : 0 < stepsTaken (n + 1) m := by
  unfold stepsTaken
  split
  · split
    · exact Nat.one_pos
    · exact Nat.succ_pos _
  · exact Nat.one_pos

/-- The moves of one operation. -/
def movesOf (m : Machine) : Operation → List Operation
  | .runFrame steps ticks =>
      List.replicate (stepsTaken steps m) .step ++
        List.replicate (if (m.runSteps steps).2.isSome then 0 else ticks) .tick
  | op => [op]

/-- The moves of a sequence of operations. -/
def moves (m : Machine) : List Operation → List Operation
  | [] => []
  | op :: ops => m.movesOf op ++ (m.perform op).1.moves ops

/-- The steps of a frame lead to the machine that the frame runs to. -/
theorem after_steps (n : Nat) (m : Machine) :
    m.after (List.replicate (stepsTaken n m) .step) = (m.runSteps n).1 := by
  induction n generalizing m with
  | zero => rfl
  | succ n ih =>
      unfold stepsTaken runSteps
      rcases hstep : m.step with ⟨m', result⟩
      have hone : m.after (List.replicate 1 .step) = m' := by
        change m.step.1 = m'
        rw [hstep]
      rcases result with fault | i | _
      · exact hone
      · dsimp only
        by_cases hwait : m'.isWaiting = true
        · rw [if_pos hwait, if_pos hwait]
          exact hone
        · rw [if_neg hwait, if_neg hwait, List.replicate_succ, after_cons]
          change m.step.1.after _ = _
          rw [hstep]
          exact ih m'
      · exact hone

theorem after_ticks (n : Nat) (m : Machine) :
    m.after (List.replicate n .tick) = m.tickBy n := by
  induction n generalizing m with
  | zero => rfl
  | succ n ih => exact ih m.tick

/-- The moves of an operation lead where the operation does. -/
theorem after_movesOf (m : Machine) (op : Operation) :
    m.after (m.movesOf op) = (m.perform op).1 := by
  cases op with
  | runFrame steps ticks =>
      change m.after (_ ++ _) = (m.runFrame steps ticks).1
      rw [after_append, after_steps, after_ticks]
      unfold runFrame
      rcases m.runSteps steps with ⟨m', fault | _⟩
      · rfl
      · rfl
  | _ => rfl

/-- The moves lead to the same machine as the operations. -/
theorem after_moves (m : Machine) (ops : List Operation) : m.after (m.moves ops) = m.after ops := by
  induction ops generalizing m with
  | nil => rfl
  | cons op ops ih =>
      rw [moves, after_append, after_movesOf, ih]
      rfl

/-- What follows some operations is taken apart on the machine that they lead to. -/
theorem moves_append (m : Machine) (ops ops' : List Operation) :
    m.moves (ops ++ ops') = m.moves ops ++ (m.after ops).moves ops' := by
  induction ops generalizing m with
  | nil => rfl
  | cons op ops ih =>
      rw [List.cons_append, moves, moves, ih, List.append_assoc]
      rfl

/-- An operation moves by steps and ticks, or is a move itself. -/
theorem mem_movesOf {m : Machine} {op move : Operation} (h : move ∈ m.movesOf op) :
    move = .step ∨ move = .tick ∨ move = op ∧ op.isFrame = false := by
  cases op with
  | runFrame steps ticks =>
      rcases List.mem_append.1 h with h | h
      · exact Or.inl (List.eq_of_mem_replicate h)
      · exact Or.inr (Or.inl (List.eq_of_mem_replicate h))
  | _ => exact Or.inr (Or.inr ⟨List.mem_singleton.1 h, rfl⟩)

/-- A move is a step, a tick, or an operation of the sequence. -/
theorem mem_moves {m : Machine} {ops : List Operation} {move : Operation}
    (h : move ∈ m.moves ops) :
    move = .step ∨ move = .tick ∨ move ∈ ops ∧ move.isFrame = false := by
  induction ops generalizing m with
  | nil => cases h
  | cons op ops ih =>
      rcases List.mem_append.1 h with h | h
      · rcases mem_movesOf h with rfl | rfl | ⟨rfl, hframe⟩
        · exact Or.inl rfl
        · exact Or.inr (Or.inl rfl)
        · exact Or.inr (Or.inr ⟨List.mem_cons_self, hframe⟩)
      · rcases ih h with rfl | rfl | ⟨hmem, hframe⟩
        · exact Or.inl rfl
        · exact Or.inr (Or.inl rfl)
        · exact Or.inr (Or.inr ⟨List.mem_cons_of_mem op hmem, hframe⟩)

/-- Only a frame is more than one move. -/
theorem movesOf_of_not_frame {op : Operation} (h : op.isFrame = false) (m : Machine) :
    m.movesOf op = [op] := by
  cases op with
  | runFrame => cases h
  | _ => rfl

/-- Operations that are moves already are their own moves. -/
theorem moves_of_no_frame {m : Machine} {ops : List Operation}
    (hops : ∀ op ∈ ops, op.isFrame = false) : m.moves ops = ops := by
  induction ops generalizing m with
  | nil => rfl
  | cons op ops ih =>
      rw [moves, movesOf_of_not_frame (hops op List.mem_cons_self),
        ih fun op' hmem => hops op' (List.mem_cons_of_mem op hmem)]
      rfl

/-- The moves of ordinary operations are ordinary, and no frames. -/
theorem isOrdinary_of_mem_moves {m : Machine} {ops : List Operation}
    (hops : ∀ op ∈ ops, op.isOrdinary = true) {move : Operation} (h : move ∈ m.moves ops) :
    move.isOrdinary = true ∧ move.isFrame = false := by
  rcases mem_moves h with rfl | rfl | ⟨hmem, hframe⟩
  · exact ⟨rfl, rfl⟩
  · exact ⟨rfl, rfl⟩
  · exact ⟨hops move hmem, hframe⟩

/-- Operations without a load have no load among their moves. -/
theorem isLoad_of_mem_moves {m : Machine} {ops : List Operation}
    (hops : ∀ op ∈ ops, op.isLoad = false) {move : Operation} (h : move ∈ m.moves ops) :
    move.isLoad = false := by
  rcases mem_moves h with rfl | rfl | ⟨hmem, -⟩
  · rfl
  · rfl
  · exact hops move hmem

/-- The machine after the first `n` moves of a sequence of operations. -/
def moment (m : Machine) (ops : List Operation) (n : Nat) : Machine :=
  m.after ((m.moves ops).take n)

@[simp] theorem moment_zero (m : Machine) (ops : List Operation) : m.moment ops 0 = m :=
  rfl

/-- The move number `n` leads from its moment to the next. -/
theorem moment_succ (m : Machine) {ops : List Operation} {n : Nat}
    (h : n < (m.moves ops).length) :
    m.moment ops (n + 1) = ((m.moment ops n).perform (m.moves ops)[n]).1 :=
  m.after_take_succ h

/-- The next move leads from one moment to the next. -/
theorem moment_of_move {m : Machine} {ops : List Operation} {n : Nat} {op : Operation}
    (h : (m.moves ops)[n]? = some op) :
    m.moment ops (n + 1) = ((m.moment ops n).perform op).1 := by
  obtain ⟨hlt, rfl⟩ := List.getElem?_eq_some_iff.1 h
  exact m.moment_succ hlt

/-- Behind the last move nothing changes. -/
theorem moment_of_no_move {m : Machine} {ops : List Operation} {n : Nat}
    (h : (m.moves ops)[n]? = none) : m.moment ops (n + 1) = m.moment ops n := by
  have hle : (m.moves ops).length ≤ n := List.getElem?_eq_none_iff.1 h
  unfold moment
  rw [List.take_of_length_le hle, List.take_of_length_le (Nat.le_succ_of_le hle)]

/-- The number of moves that the first `k` operations make. -/
def movesBefore (m : Machine) (ops : List Operation) (k : Nat) : Nat :=
  (m.moves (ops.take k)).length

/-- The moves of the first operations are the first moves. -/
theorem take_movesBefore (m : Machine) (ops : List Operation) (k : Nat) :
    (m.moves ops).take (m.movesBefore ops k) = m.moves (ops.take k) := by
  have hsplit := m.moves_append (ops.take k) (ops.drop k)
  rw [List.take_append_drop] at hsplit
  rw [hsplit, movesBefore, List.take_left]

/-- The machine after each operation is one of the moments, so what holds at every moment
holds of the machines that the operations themselves lead to. -/
theorem moment_movesBefore (m : Machine) (ops : List Operation) (k : Nat) :
    m.moment ops (m.movesBefore ops k) = m.after (ops.take k) := by
  rw [moment, take_movesBefore, after_moves]

/-- The instruction that an operation executes, if it is a step and executes one. -/
def executes? (m : Machine) : Operation → Option Instruction
  | .step =>
      match m.step.2 with
      | .ok (.executed i) => some i
      | _ => none
  | _ => none

/-- What is executed is executed by a step. -/
theorem executes?_eq_some {m : Machine} {op : Operation} {i : Instruction}
    (h : m.executes? op = some i) : op = .step ∧ m.step.2 = .ok (.executed i) := by
  unfold executes? at h
  split at h
  · split at h
    · next hstep =>
        cases h
        exact ⟨rfl, hstep⟩
    · cases h
  · cases h

/-- A step that answers with an instruction executes it. -/
theorem executes?_step {m : Machine} {i : Instruction} (h : m.step.2 = .ok (.executed i)) :
    m.executes? .step = some i := by
  simp only [executes?, h]

/-- The instruction that the move at a moment executes, if it executes one. -/
def executedAt? (m : Machine) (ops : List Operation) (n : Nat) : Option Instruction :=
  (m.moves ops)[n]?.bind (m.moment ops n).executes?

/-- The instructions that the first `n` moves execute, in order. -/
def executedBefore (m : Machine) (ops : List Operation) (n : Nat) : List Instruction :=
  (List.range n).filterMap (m.executedAt? ops)

/-- One move further on, its instruction is added to those that were executed. -/
theorem executedBefore_succ (m : Machine) (ops : List Operation) (n : Nat) :
    m.executedBefore ops (n + 1) = m.executedBefore ops n ++ (m.executedAt? ops n).toList := by
  unfold executedBefore
  rw [List.range_succ, List.filterMap_append]
  cases h : m.executedAt? ops n <;> simp [h]

/-- What every move preserves holds at every moment. -/
theorem moment_preserves {P : Machine → Prop} {m : Machine} {ops : List Operation}
    (hmove : ∀ move ∈ m.moves ops, ∀ m', P m' → P (m'.perform move).1) (hm : P m) (n : Nat) :
    P (m.moment ops n) :=
  performAll_preserves (fun move h => hmove move (List.mem_of_mem_take h)) hm

end Machine

end Chip8
