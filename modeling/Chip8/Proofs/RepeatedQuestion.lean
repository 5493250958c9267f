import Chip8.Proofs.Pacing

/-!
# Asking a pacer twice at the same time

Time that has been counted should not count again, so a pacer that is asked a second time
at the same time should have nothing to hand out.  This is so as long as its period is not
zero: the anchor has moved by what was handed out, or to the time of the question when a
backlog was dropped.  But a rate of more than one event a nanosecond has a period of zero.
Each nanosecond is then counted as an event, and the anchor is not moved by it.

* `Pacer.pending_moved` — what is pending once the anchor has moved;
* `Pacer.secondDue_eq` — the answer to a question that is asked again;
* `Pacer.asked_again` — the same for a pacer of any rate, at any point of its history, and
  `Pacer.not_forall_asked_again`, five events that are handed out twice.
-/

namespace Chip8.Pacer

/-- The second answer of a pacer that is asked twice at the same time. -/
def secondDue (p : Pacer) (now : Nat) : Nat :=
  ((p.due now).2.due now).1

section Again

variable (p : Pacer) (now : Nat)

/-- Where nothing is pending the answer is zero. -/
theorem due_of_pending_eq_zero (h : p.pending now = 0) : (p.due now).1 = 0 := by
  obtain ⟨hdrop, -⟩ | ⟨-, hdue⟩ := p.due_cases now
  · rw [h] at hdrop
    exact absurd hdrop (Nat.not_lt_zero _)
  · rw [hdue]
    exact h

/-- Once the anchor has moved by what was pending, nothing is pending any more.  What was
pending is a remainder modulo 2⁶⁴, so the periods left over are a multiple of that. -/
theorem pending_moved (hperiod : 0 < p.period) :
    { p with last := p.last + p.period * p.pending now }.pending now = 0 := by
  unfold pending
  rw [Nat.max_eq_left hperiod, ← Nat.sub_sub, Nat.sub_mul_div]
  have hsplit := Nat.div_add_mod ((now - p.last) / p.period) 0x10000000000000000
  have hrest : (now - p.last) / p.period - (now - p.last) / p.period % 0x10000000000000000 =
      0x10000000000000000 * ((now - p.last) / p.period / 0x10000000000000000) := by
    omega
  rw [hrest, Nat.mul_mod_right]

/-- The answer to a question that is asked again at the same time.  A backlog that was dropped
is gone, and so is what was handed out.  But if the period is zero, then the anchor has stayed
where it was, and the answer is the same once more. -/
theorem secondDue_eq :
    p.secondDue now =
      if 0 < p.period ∨ p.backlog < p.pending now then 0 else (p.due now).1 := by
  unfold secondDue
  obtain ⟨hdrop, hdue⟩ | ⟨hle, hdue⟩ := p.due_cases now
  · rw [if_pos (Or.inr hdrop), hdue]
    exact due_of_pending_eq_zero _ now (pending_eq_zero _ now (Nat.le_refl _))
  · by_cases hperiod : 0 < p.period
    · rw [if_pos (Or.inl hperiod), hdue]
      exact due_of_pending_eq_zero _ now (p.pending_moved now hperiod)
    · have hstill : p.last + p.period * p.pending now = p.last := by
        rw [Nat.eq_zero_of_not_pos hperiod, Nat.zero_mul, Nat.add_zero]
      have hkept : (p.due now).2 = p := by
        rw [hdue, hstill]
      have hnone : ¬ (0 < p.period ∨ p.backlog < p.pending now) :=
        not_or.2 ⟨hperiod, Nat.not_lt.2 hle⟩
      rw [if_neg hnone, hkept]

end Again

/-- **A question asked again.**  Take any rate, ask a pacer of that rate at any times, and then
twice at one more.  The second answer is zero if the rate is at most one event a nanosecond, or
if the first answer was zero, or if it dropped a backlog.  In all other cases it counts the
events of the first answer a second time. -/
theorem asked_again (hz : UInt32) (origin : Nat) (times : List Nat) (now : Nat) :
    (((start hz origin).after times).secondDue now = 0 ↔
      max hz.toNat 1 ≤ 1000000000 ∨
      (((start hz origin).after times).due now).1 = 0 ∨
      max (max hz.toNat 1 / 4) 1 < ((start hz origin).after times).pending now) ∧
    (((start hz origin).after times).secondDue now ≠ 0 →
      ((start hz origin).after times).secondDue now =
        (((start hz origin).after times).due now).1) := by
  have hperiod : 0 < ((start hz origin).after times).period ↔ max hz.toNat 1 ≤ 1000000000 := by
    rw [period_after]
    exact period_start_pos_iff
  have hbacklog : ((start hz origin).after times).backlog = max (max hz.toNat 1 / 4) 1 :=
    backlog_after
  have hsecond := ((start hz origin).after times).secondDue_eq now
  simp only [hperiod, hbacklog] at hsecond
  rw [hsecond]
  by_cases hmoved : max hz.toNat 1 ≤ 1000000000 ∨
      max (max hz.toNat 1 / 4) 1 < ((start hz origin).after times).pending now
  · rw [if_pos hmoved]
    refine ⟨iff_of_true rfl ?_, fun hne => absurd rfl hne⟩
    obtain hrate | hdrop := hmoved
    · exact Or.inl hrate
    · exact Or.inr (Or.inr hdrop)
  · rw [if_neg hmoved]
    obtain ⟨hrate, hkept⟩ := not_or.1 hmoved
    refine ⟨?_, fun _ => rfl⟩
    constructor
    · intro hzero
      exact Or.inr (Or.inl hzero)
    · intro hcases
      exact (hcases.resolve_left hrate).resolve_right hkept

/-- Not every question that is asked again is answered with zero: at two events a nanosecond
the same five events are handed out twice. -/
theorem not_forall_asked_again :
    ¬ ∀ (hz : UInt32) (origin : Nat) (times : List Nat) (now : Nat),
      (∀ t ∈ times, t - origin < 2 ^ 64) → now - origin < 2 ^ 64 →
      ((start hz origin).after times).secondDue now = 0 := by
  intro h
  have htwice := h 2000000000 0 [] 5 (by decide) (by decide)
  revert htwice
  decide

end Chip8.Pacer
