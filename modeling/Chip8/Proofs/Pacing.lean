import Chip8.Pacer
import Mathlib.Algebra.Order.Ring.Nat

/-!
# What a pacer hands out

A pacer is asked at one time after the other, and answers with a number of events.  It keeps
an anchor, the time up to which events have been handed out.  An answer moves the anchor by
at least as many periods as it counts events, and never past the time of the question; so
the events handed out fit into the time that has passed, however often and in whatever
order the pacer was asked.  As long as no backlog is dropped, the anchor moves by exactly
the periods that were counted, and the answers add up to the whole periods since the start.

* `Pacer.due_cases` — the two ways in which a pacer answers;
* `Pacer.last_add_le`, `Pacer.last_le` — how far the anchor moves over some questions;
* `Pacer.sum_take_answers` — the sum of the answers of a pacer that keeps up;
* `Pacer.neither_loses_nor_invents` — all of it, for a pacer from its start on.
-/

namespace Chip8.Pacer

/-- The pacer after it has been asked at some times. -/
def after (p : Pacer) : List Nat → Pacer
  | [] => p
  | now :: times => (p.due now).2.after times

/-- The answers of a pacer that is asked at some times, in order. -/
def answers (p : Pacer) : List Nat → List Nat
  | [] => []
  | now :: times => (p.due now).1 :: (p.due now).2.answers times

/-- At none of some times are more whole periods pending than are handed out at once. -/
def KeepsUp (p : Pacer) : List Nat → Prop
  | [] => True
  | now :: times => (now - p.last) / p.period ≤ p.backlog ∧ (p.due now).2.KeepsUp times

instance decidableKeepsUp (p : Pacer) : (times : List Nat) → Decidable (p.KeepsUp times)
  | [] => inferInstanceAs (Decidable True)
  | now :: times =>
      have := decidableKeepsUp (p.due now).2 times
      inferInstanceAs (Decidable (_ ∧ _))

section Question

variable (p : Pacer) (now : Nat)

/-- A pacer hands out what is pending and moves its anchor along, or drops a backlog. -/
theorem due_cases :
    p.backlog < p.pending now ∧ p.due now = (p.backlog, { p with last := now }) ∨
    p.pending now ≤ p.backlog ∧
      p.due now = (p.pending now, { p with last := p.last + p.period * p.pending now }) := by
  unfold due
  by_cases hdrop : p.backlog < p.pending now
  · exact Or.inl ⟨hdrop, if_pos hdrop⟩
  · exact Or.inr ⟨Nat.not_lt.1 hdrop, if_neg hdrop⟩

/-- A question does not change the period. -/
@[simp] theorem period_due : (p.due now).2.period = p.period := by
  obtain ⟨-, hdue⟩ | ⟨-, hdue⟩ := p.due_cases now
  · rw [hdue]
  · rw [hdue]

@[simp] theorem backlog_due : (p.due now).2.backlog = p.backlog := by
  obtain ⟨-, hdue⟩ | ⟨-, hdue⟩ := p.due_cases now
  · rw [hdue]
  · rw [hdue]

/-- No answer is larger than the backlog. -/
theorem due_le_backlog : (p.due now).1 ≤ p.backlog := by
  obtain ⟨-, hdue⟩ | ⟨hle, hdue⟩ := p.due_cases now
  · exact Nat.le_of_eq (congrArg Prod.fst hdue)
  · rw [hdue]
    exact hle

/-- What is pending fits into the time since the anchor. -/
theorem period_mul_pending_le : p.period * p.pending now ≤ now - p.last := by
  unfold pending
  calc p.period * ((now - p.last) / max p.period 1 % 0x10000000000000000)
      ≤ max p.period 1 * ((now - p.last) / max p.period 1) :=
        Nat.mul_le_mul (Nat.le_max_left _ _) (Nat.mod_le _ _)
    _ ≤ now - p.last := Nat.mul_div_le _ _

/-- Before the anchor nothing is pending. -/
theorem pending_eq_zero (h : now ≤ p.last) : p.pending now = 0 := by
  unfold pending
  rw [Nat.sub_eq_zero_of_le h, Nat.zero_div, Nat.zero_mod]

/-- The anchor moves by at least the periods that are handed out.  A backlog is dropped only
when the anchor lies behind, and then it moves up to the time of the question. -/
theorem last_add_due_le : p.last + p.period * (p.due now).1 ≤ (p.due now).2.last := by
  have hfits := p.period_mul_pending_le now
  obtain ⟨hdrop, hdue⟩ | ⟨-, hdue⟩ := p.due_cases now
  · have hless : p.period * p.backlog ≤ p.period * p.pending now :=
      Nat.mul_le_mul_left _ (Nat.le_of_lt hdrop)
    have hbehind : p.last < now := by
      apply Nat.lt_of_not_le
      intro hle
      rw [p.pending_eq_zero now hle] at hdrop
      exact Nat.not_lt_zero _ hdrop
    rw [hdue]
    change p.last + p.period * p.backlog ≤ now
    omega
  · apply Nat.le_of_eq
    rw [hdue]

/-- The anchor does not move past the time of the question. -/
theorem last_due_le {bound : Nat} (hlast : p.last ≤ bound) (hnow : now ≤ bound) :
    (p.due now).2.last ≤ bound := by
  have hfits := p.period_mul_pending_le now
  obtain ⟨-, hdue⟩ | ⟨-, hdue⟩ := p.due_cases now
  · rw [hdue]
    exact hnow
  · rw [hdue]
    change p.last + p.period * p.pending now ≤ bound
    omega

/-- Where no more is pending than is handed out at once, all of it is handed out. -/
theorem due_of_le_backlog (hperiod : 0 < p.period) (hbacklog : p.backlog < 2 ^ 64)
    (hkeeps : (now - p.last) / p.period ≤ p.backlog) :
    p.due now = ((now - p.last) / p.period,
      { p with last := p.last + p.period * ((now - p.last) / p.period) }) := by
  have hpending : p.pending now = (now - p.last) / p.period := by
    unfold pending
    rw [Nat.max_eq_left hperiod]
    exact Nat.mod_eq_of_lt (Nat.lt_of_le_of_lt hkeeps hbacklog)
  unfold due
  rw [hpending, if_neg (Nat.not_lt.2 hkeeps)]

end Question

section Questions

variable {p : Pacer} {times : List Nat}

@[simp] theorem period_after : (p.after times).period = p.period := by
  induction times generalizing p with
  | nil => rfl
  | cons now times ih => rw [after, ih, period_due]

@[simp] theorem backlog_after : (p.after times).backlog = p.backlog := by
  induction times generalizing p with
  | nil => rfl
  | cons now times ih => rw [after, ih, backlog_due]

@[simp] theorem length_answers : (p.answers times).length = times.length := by
  induction times generalizing p with
  | nil => rfl
  | cons now times ih => rw [answers, List.length_cons, ih, List.length_cons]

/-- None of the answers is larger than the backlog. -/
theorem le_backlog_of_mem_answers {count : Nat} (h : count ∈ p.answers times) :
    count ≤ p.backlog := by
  induction times generalizing p with
  | nil => cases h
  | cons now times ih =>
      rw [answers, List.mem_cons] at h
      obtain rfl | hrest := h
      · exact p.due_le_backlog now
      · have hle := ih hrest
        rwa [backlog_due] at hle

/-- Over any questions the anchor moves by at least the periods that are handed out. -/
theorem last_add_le : p.last + p.period * (p.answers times).sum ≤ (p.after times).last := by
  induction times generalizing p with
  | nil => exact Nat.le_refl _
  | cons now times ih =>
      have hfirst := p.last_add_due_le now
      have hrest := ih (p := (p.due now).2)
      rw [period_due] at hrest
      rw [answers, after, List.sum_cons, Nat.mul_add]
      omega

/-- Over any questions the anchor does not move past the latest of their times. -/
theorem last_le {bound : Nat} (hlast : p.last ≤ bound) (htimes : ∀ t ∈ times, t ≤ bound) :
    (p.after times).last ≤ bound := by
  induction times generalizing p with
  | nil => exact hlast
  | cons now times ih =>
      have hnow := htimes now List.mem_cons_self
      have hrest : ∀ t ∈ times, t ≤ bound := fun t ht => htimes t (List.mem_cons_of_mem now ht)
      exact ih (p.last_due_le now hlast hnow) hrest

/-- The events handed out fit into the time from the anchor to the latest question. -/
theorem sum_answers_mul_period_le {latest : Nat} (htimes : ∀ t ∈ times, t ≤ latest) :
    (p.answers times).sum * p.period ≤ latest - p.last := by
  have hmoved : p.last + p.period * (p.answers times).sum ≤ (p.after times).last := last_add_le
  have hbound : (p.after times).last ≤ max p.last latest :=
    last_le (Nat.le_max_left _ _) fun t ht => Nat.le_trans (htimes t ht) (Nat.le_max_right _ _)
  rw [Nat.mul_comm]
  omega

/-- The answers of a pacer that keeps up, added up to the one at `now`.  The anchor of the
pacer lies `count` periods after `origin`; these and the answers are the periods from `origin`
to `now`. -/
theorem sum_take_answers {origin count : Nat} (hperiod : 0 < p.period)
    (hbacklog : p.backlog < 2 ^ 64) (hanchor : p.last = origin + p.period * count)
    (hahead : ∀ t ∈ times, p.last ≤ t) (hsorted : times.Pairwise (· ≤ ·))
    (hkeeps : p.KeepsUp times) {k now : Nat} (hnow : times[k]? = some now) :
    count + ((p.answers times).take (k + 1)).sum = (now - origin) / p.period := by
  induction times generalizing p count k with
  | nil => cases hnow
  | cons first times ih =>
      obtain ⟨hfirst, hkeeps⟩ := hkeeps
      obtain ⟨hlater, hsorted⟩ := List.pairwise_cons.1 hsorted
      have hle : p.last ≤ first := hahead first List.mem_cons_self
      have hdue := p.due_of_le_backlog first hperiod hbacklog hfirst
      have hcount : count + (p.due first).1 = (first - origin) / p.period := by
        have hsplit : first - origin = first - p.last + p.period * count := by omega
        rw [hdue, hsplit, Nat.add_mul_div_left _ _ hperiod, Nat.add_comm]
      rw [answers, List.take_succ_cons, List.sum_cons, ← Nat.add_assoc]
      cases k with
      | zero =>
          cases hnow
          exact hcount
      | succ k =>
          have hmoved : (p.due first).2.last =
              origin + (p.due first).2.period * (count + (p.due first).1) := by
            rw [period_due, hdue, Nat.mul_add, ← Nat.add_assoc, ← hanchor]
          have hnext : (p.due first).2.last ≤ first := p.last_due_le first hle (Nat.le_refl _)
          have hresult := ih (by rwa [period_due]) (by rwa [backlog_due]) hmoved
            (fun t ht => Nat.le_trans hnext (hlater t ht)) hsorted hkeeps hnow
          rwa [period_due] at hresult

end Questions

section Start

variable {hz : UInt32} {origin : Nat} {times : List Nat}

/-- The period is zero for rates of more than one event a nanosecond. -/
theorem period_start_pos_iff : 0 < (start hz origin).period ↔ max hz.toNat 1 ≤ second := by
  have hpos : 0 < max hz.toNat 1 := Nat.lt_of_lt_of_le Nat.zero_lt_one (Nat.le_max_right _ _)
  exact Nat.div_pos_iff.trans (and_iff_right hpos)

/-- The backlog fits into a machine word. -/
theorem backlog_start_lt : (start hz origin).backlog < 2 ^ 64 := by
  have hlt := hz.toNat_lt
  change max (max hz.toNat 1 / 4) 1 < 2 ^ 64
  omega

/-- What a pacer that keeps up has handed out by a question is the number of whole periods
since it was started. -/
theorem sum_take_answers_start (hrate : max hz.toNat 1 ≤ second)
    (hsorted : (origin :: times).Pairwise (· ≤ ·)) (hkeeps : (start hz origin).KeepsUp times)
    {k now : Nat} (hnow : times[k]? = some now) :
    (((start hz origin).answers times).take (k + 1)).sum =
      (now - origin) / (start hz origin).period := by
  obtain ⟨hahead, hsorted⟩ := List.pairwise_cons.1 hsorted
  have hanchor : (start hz origin).last = origin + (start hz origin).period * 0 := rfl
  have hsum := sum_take_answers (period_start_pos_iff.2 hrate) backlog_start_lt hanchor hahead
    hsorted hkeeps hnow
  rwa [Nat.zero_add] at hsum

/-- All answers of a pacer that keeps up, added up. -/
theorem sum_answers_start (hrate : max hz.toNat 1 ≤ second)
    (hsorted : (origin :: times).Pairwise (· ≤ ·)) (hkeeps : (start hz origin).KeepsUp times) :
    ((start hz origin).answers times).sum =
      (times.getLast?.getD origin - origin) / (start hz origin).period := by
  cases hlast : times.getLast? with
  | none =>
      obtain rfl := List.getLast?_eq_none_iff.1 hlast
      rw [Option.getD_none, Nat.sub_self, Nat.zero_div]
      rfl
  | some now =>
      have hpos : 0 < times.length := List.length_pos_iff.2 fun hnil => by
        rw [hnil] at hlast
        cases hlast
      rw [List.getLast?_eq_getElem?] at hlast
      have hsum := sum_take_answers_start hrate hsorted hkeeps hlast
      rwa [Nat.sub_add_cancel hpos, List.take_of_length_le (Nat.le_of_eq length_answers)] at hsum

end Start

/-- **A pacer neither loses nor invents events.**  Take a rate of at most one event a
nanosecond, and ask a pacer of that rate at any times, in any order.

No answer is greater than the events of a quarter of a second, or than one.  The answers come
to no more periods than there are from the start to the latest time, and to none if no time is
after the start.  If moreover the times do not go backwards, and never are more whole periods
pending than are handed out at once, then the answers up to each time are together exactly the
whole periods from the start to that time.  So they are together the same for all such times
that end with the same one. -/
theorem neither_loses_nor_invents (hz : UInt32) (hrate : max hz.toNat 1 ≤ 1000000000)
    (origin : Nat) (times : List Nat) :
    (∀ count ∈ (start hz origin).answers times, count ≤ max (max hz.toNat 1 / 4) 1) ∧
    (∀ latest, (∀ t ∈ times, t ≤ latest) →
      ((start hz origin).answers times).sum * (1000000000 / max hz.toNat 1) ≤ latest - origin ∧
      (latest ≤ origin → ((start hz origin).answers times).sum = 0)) ∧
    ((origin :: times).Pairwise (· ≤ ·) → (start hz origin).KeepsUp times →
      (∀ k now, times[k]? = some now →
        (((start hz origin).answers times).take (k + 1)).sum =
          (now - origin) / (1000000000 / max hz.toNat 1)) ∧
      ∀ times', (origin :: times').Pairwise (· ≤ ·) → (start hz origin).KeepsUp times' →
        times'.getLast? = times.getLast? →
          ((start hz origin).answers times').sum = ((start hz origin).answers times).sum) := by
  refine ⟨fun count => le_backlog_of_mem_answers, ?_, ?_⟩
  · intro latest htimes
    have hfits : ((start hz origin).answers times).sum * (start hz origin).period ≤
        latest - origin := sum_answers_mul_period_le htimes
    refine ⟨hfits, ?_⟩
    intro hle
    rw [Nat.sub_eq_zero_of_le hle, Nat.le_zero, Nat.mul_eq_zero] at hfits
    exact hfits.resolve_right (Nat.ne_of_gt (period_start_pos_iff.2 hrate))
  · intro hsorted hkeeps
    constructor
    · intro k now hnow
      exact sum_take_answers_start hrate hsorted hkeeps hnow
    · intro times' hsorted' hkeeps' hend
      rw [sum_answers_start hrate hsorted' hkeeps', sum_answers_start hrate hsorted hkeeps, hend]

/-- Seven events a second, from the time 1000 on: the period is no whole number of
nanoseconds, and one event is handed out at once.  Asked twice at the same time and then just
before an event, the pacer has handed out one event; at the next nanosecond it has handed out
two, like one that was asked in between only once.  After a whole second it hands out one
event, and then none at a time before its start. -/
theorem sevenHertz_hands_out_two :
    max (7 : UInt32).toNat 1 ≤ 1000000000 ∧
    [1000, 142858142, 142858142, 285715283, 285715284].Pairwise (· ≤ ·) ∧
    (start 7 1000).KeepsUp [142858142, 142858142, 285715283, 285715284] ∧
    [1000, 200000000, 285715284].Pairwise (· ≤ ·) ∧
    (start 7 1000).KeepsUp [200000000, 285715284] ∧
    (((start 7 1000).answers [142858142, 142858142, 285715283, 285715284]).take 3).sum = 1 ∧
    ((start 7 1000).answers [200000000, 285715284]).sum =
      ((start 7 1000).answers [142858142, 142858142, 285715283, 285715284]).sum ∧
    (∀ t ∈ [1000001000, 0], t ≤ 1000001000) ∧
    ((start 7 1000).answers [1000001000, 0]).sum * 142857142 ≤ 1000000000 ∧
    (∀ t ∈ [5, 0], t ≤ 5) ∧ ((start 7 1000).answers [5, 0]).sum = 0 := by
  have hrate : max (7 : UInt32).toNat 1 ≤ 1000000000 := by decide
  have hsorted : [1000, 142858142, 142858142, 285715283, 285715284].Pairwise (· ≤ ·) := by decide
  have hkeeps : (start 7 1000).KeepsUp [142858142, 142858142, 285715283, 285715284] := by decide
  have hsorted' : [1000, 200000000, 285715284].Pairwise (· ≤ ·) := by decide
  have hkeeps' : (start 7 1000).KeepsUp [200000000, 285715284] := by decide
  have hlate : ∀ t ∈ [1000001000, 0], t ≤ 1000001000 := by decide
  have hearly : ∀ t ∈ [5, 0], t ≤ 5 := by decide
  obtain ⟨-, -, hexact⟩ := neither_loses_nor_invents 7 hrate 1000
    [142858142, 142858142, 285715283, 285715284]
  obtain ⟨hsums, hsame⟩ := hexact hsorted hkeeps
  obtain ⟨-, hfits, -⟩ := neither_loses_nor_invents 7 hrate 1000 [1000001000, 0]
  obtain ⟨-, hnone, -⟩ := neither_loses_nor_invents 7 hrate 1000 [5, 0]
  refine ⟨hrate, hsorted, hkeeps, hsorted', hkeeps', ?_, ?_, hlate, ?_, hearly, ?_⟩
  · exact hsums 2 285715283 rfl
  · exact hsame _ hsorted' hkeeps' rfl
  · exact (hfits 1000001000 hlate).1
  · exact (hnone 5 hearly).2 (by decide)

end Chip8.Pacer
