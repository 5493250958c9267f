import Chip8.Proofs.KeyDelivery

/-!
# Key transitions over many rounds

Round by round a host lists the codes of the keys that are down.  A round makes the keypad
hold just these, and reports the events that lead there from the round before.  So somebody
who takes the events alone, and never sees a list of codes, holds the same keys after every
round.

* `Keypad.hear`, `Keypad.hearAll` — what a round of codes comes to, and round after round;
* `KeyEvent.mem_between_down`, `KeyEvent.mem_between_up`, `KeyEvent.pairwise_between` — the
  events between two states of the keypad;
* `Keypad.takeAll_hearAll` — taking the events of all rounds;
* `Keypad.rounds_carry_keypad` — all of it.
-/

namespace Chip8

/-- The code of the key that an event is about. -/
def KeyEvent.code : KeyEvent → UInt8
  | .down code => code
  | .up code => code

namespace Keypad

/-- What comes of a round, from what was held before it: the keypad on which the keys of the
round are held, and the events that lead to it. -/
def hear (before : Keypad) (round : List UInt8) : Keypad × List KeyEvent :=
  (ofCodes round, KeyEvent.between before (ofCodes round))

/-- What comes of one round after the other. -/
def hearAll (before : Keypad) : List (List UInt8) → List (Keypad × List KeyEvent)
  | [] => []
  | round :: rounds => before.hear round :: (before.hear round).1.hearAll rounds

/-- The keypad after some rounds. -/
def heldAfter (before : Keypad) (rounds : List (List UInt8)) : Keypad :=
  rounds.foldl (fun held round => (held.hear round).1) before

/-- What the events of a round tell, from what was held before it: the keypad afterwards holds
the codes of the round, modulo sixteen, and the events name each key that has changed, once and
by ascending code. -/
structure Tells (before : Keypad) (round : List UInt8) (now : Keypad) (events : List KeyEvent) :
    Prop where
  held : ∀ c, now.isHeld c = true ↔ ∃ code ∈ round, code % 16 = c
  ascending : (events.map KeyEvent.code).Pairwise (· < ·)
  once : (events.map KeyEvent.code).Nodup
  down : ∀ c, .down c ∈ events ↔ before.isHeld c = false ∧ now.isHeld c = true
  up : ∀ c, .up c ∈ events ↔ before.isHeld c = true ∧ now.isHeld c = false

/-- Only the codes of the keypad are held. -/
theorem lt_of_isHeld {k : Keypad} {c : UInt8} (h : k.isHeld c = true) : c.toNat < 16 := by
  unfold isHeld at h
  split at h
  · next hlt => exact hlt
  · cases h

/-- Keypads on which the same keys are held are the same. -/
theorem ext_isHeld {k k' : Keypad} (h : ∀ c : UInt8, c.toNat < 16 → k.isHeld c = k'.isHeld c) :
    k = k' := by
  have hkeys : k.keys = k'.keys := by
    apply Vector.ext
    intro i hi
    have hnat : i.toUInt8.toNat = i := UInt8.toNat_ofNat_of_lt' (Nat.lt_trans hi (by decide))
    have hheld := h i.toUInt8 (by rw [hnat]; exact hi)
    simpa [isHeld, hnat, hi] using hheld
  cases k
  cases k'
  exact congrArg Keypad.mk hkeys

/-- Of a code the low four bits count. -/
theorem isHeld_ofCodes_iff {round : List UInt8} {c : UInt8} :
    (ofCodes round).isHeld c = true ↔ ∃ code ∈ round, code % 16 = c := by
  have hmod (code : UInt8) : code % 16 = c ↔ code.toNat % 16 = c.toNat := by
    rw [← UInt8.toNat_inj, UInt8.toNat_mod]
    rfl
  by_cases hc : c.toNat < 16
  · rw [isHeld_ofCodes hc, List.any_eq_true]
    simp only [beq_iff_eq, hmod]
  · constructor
    · intro hheld
      exact absurd (lt_of_isHeld hheld) hc
    · intro hround
      obtain ⟨code, -, hcode⟩ := hround
      have hlt : code.toNat % 16 < 16 := Nat.mod_lt _ (by decide)
      rw [(hmod code).1 hcode] at hlt
      exact absurd hlt hc

/-- Codes that come twice, or in another order, make no difference. -/
theorem hear_congr {before : Keypad} {round round' : List UInt8}
    (h : ∀ code, code ∈ round' ↔ code ∈ round) : before.hear round' = before.hear round := by
  have hnow : ofCodes round' = ofCodes round := by
    apply ext_isHeld
    intro c _
    rw [Bool.eq_iff_iff, isHeld_ofCodes_iff, isHeld_ofCodes_iff]
    simp only [h]
  unfold hear
  rw [hnow]

/-- The codes are listed in ascending order. -/
theorem pairwise_codes : codes.Pairwise (· < ·) := by
  decide

end Keypad

namespace KeyEvent

variable {before now : Keypad} {c : UInt8}

/-- The event of a key names its code. -/
theorem code_of_ofChange {code : UInt8} {b n : Bool} {event : KeyEvent}
    (h : ofChange code b n = some event) : event.code = code := by
  unfold ofChange at h
  split at h
  · cases h
  · split at h
    · cases h
      rfl
    · cases h
      rfl

/-- A key goes down if it was not held and is held now. -/
theorem ofChange_eq_down_iff {code : UInt8} {b n : Bool} :
    ofChange code b n = some (.down c) ↔ code = c ∧ b = false ∧ n = true := by
  cases b <;> cases n <;> simp [ofChange]

theorem ofChange_eq_up_iff {code : UInt8} {b n : Bool} :
    ofChange code b n = some (.up c) ↔ code = c ∧ b = true ∧ n = false := by
  cases b <;> cases n <;> simp [ofChange]

/-- Between two states of the keypad the keys go down that are held in the second alone. -/
theorem mem_between_down :
    .down c ∈ between before now ↔ before.isHeld c = false ∧ now.isHeld c = true := by
  simp only [between, List.mem_filterMap, ofChange_eq_down_iff]
  constructor
  · intro hevent
    obtain ⟨code, -, hcode, hchange⟩ := hevent
    rwa [hcode] at hchange
  · intro hchange
    exact ⟨c, Keypad.mem_codes.2 (Keypad.lt_of_isHeld hchange.2), rfl, hchange⟩

/-- Between two states of the keypad the keys go up that are held in the first alone. -/
theorem mem_between_up :
    .up c ∈ between before now ↔ before.isHeld c = true ∧ now.isHeld c = false := by
  simp only [between, List.mem_filterMap, ofChange_eq_up_iff]
  constructor
  · intro hevent
    obtain ⟨code, -, hcode, hchange⟩ := hevent
    rwa [hcode] at hchange
  · intro hchange
    exact ⟨c, Keypad.mem_codes.2 (Keypad.lt_of_isHeld hchange.1), rfl, hchange⟩

/-- The events come by ascending code, as the codes do that they are made from. -/
theorem pairwise_between : ((between before now).map code).Pairwise (· < ·) := by
  rw [List.pairwise_map, between, List.pairwise_filterMap]
  refine Keypad.pairwise_codes.imp ?_
  intro first second hlt event hevent event' hevent'
  rwa [code_of_ofChange hevent, code_of_ofChange hevent']

end KeyEvent

namespace Keypad

variable {before : Keypad} {round : List UInt8} {rounds : List (List UInt8)}

theorem heldAfter_cons :
    before.heldAfter (round :: rounds) = (before.hear round).1.heldAfter rounds := by
  unfold heldAfter
  rw [List.foldl_cons]

/-- The last round alone decides which keys are held. -/
theorem heldAfter_concat : before.heldAfter (rounds ++ [round]) = ofCodes round := by
  unfold heldAfter
  rw [List.foldl_append]
  rfl

/-- The events of a round tell the difference that it makes, and nothing else. -/
theorem tells_hear (before : Keypad) (round : List UInt8) :
    Tells before round (before.hear round).1 (before.hear round).2 where
  held _ := isHeld_ofCodes_iff
  ascending := KeyEvent.pairwise_between
  once := KeyEvent.pairwise_between.imp UInt8.ne_of_lt
  down _ := KeyEvent.mem_between_down
  up _ := KeyEvent.mem_between_up

/-- Events are taken one part after the other. -/
theorem takeAll_append {k k' : Keypad} {events more : List KeyEvent}
    (h : k.takeAll events = .ok k') : k.takeAll (events ++ more) = k'.takeAll more := by
  induction events generalizing k with
  | nil =>
      cases h
      rfl
  | cons event events ih =>
      unfold takeAll at h
      rw [List.cons_append, takeAll]
      split at h
      · exact ih h
      · cases h

/-- A keypad that takes the events of a round comes to hold the keys of the round. -/
theorem takeAll_hear (before : Keypad) (round : List UInt8) :
    before.takeAll (before.hear round).2 = .ok (before.hear round).1 := by
  obtain ⟨k, htake, hheld⟩ := takeAll_between before (ofCodes round) before
  have hk : k = ofCodes round := by
    apply ext_isHeld
    intro c hc
    rw [hheld c hc]
    by_cases hsame : before.isHeld c = (ofCodes round).isHeld c
    · rw [if_neg (not_not_intro hsame), hsame]
    · rw [if_pos hsame]
  rw [hk] at htake
  exact htake

/-- A keypad that takes the events of all rounds stays in step with them. -/
theorem takeAll_hearAll (before : Keypad) (rounds : List (List UInt8)) :
    before.takeAll ((before.hearAll rounds).flatMap Prod.snd) = .ok (before.heldAfter rounds) := by
  induction rounds generalizing before with
  | nil => rfl
  | cons round rounds ih =>
      rw [hearAll, List.flatMap_cons, takeAll_append (before.takeAll_hear round), heldAfter_cons]
      exact ih (before.hear round).1

/-- What comes of a round depends on the rounds before it through the keys that they leave
held. -/
theorem getElem?_hearAll {k : Nat} (h : rounds[k]? = some round) :
    (before.hearAll rounds)[k]? = some ((before.heldAfter (rounds.take k)).hear round) := by
  induction rounds generalizing before k with
  | nil => cases h
  | cons first rounds ih =>
      cases k with
      | zero =>
          cases h
          rfl
      | succ k =>
          rw [List.take_succ_cons, heldAfter_cons, hearAll, List.getElem?_cons_succ]
          exact ih h

/-- One round further on, the keypad is the one that the round makes. -/
theorem heldAfter_take_succ {k : Nat} (h : rounds[k]? = some round) :
    before.heldAfter (rounds.take (k + 1)) =
      ((before.heldAfter (rounds.take k)).hear round).1 := by
  unfold heldAfter
  rw [List.take_add_one, h, List.foldl_append]
  rfl

/-- **Rounds of codes carry the whole keypad.**  Take any keys that are held at first, and any
rounds of any bytes.  Each round tells what has changed since the one before it, and which keys
are held after it; and it would tell the same with its codes in another order, or some of them
more often.  A keypad on which the keys are held that were held at first takes the events of all
rounds, and comes to hold those of the last round. -/
theorem rounds_carry_keypad (before : Keypad) (rounds : List (List UInt8)) :
    (∀ k round, rounds[k]? = some round → ∃ now events,
      (before.hearAll rounds)[k]? = some (now, events) ∧
      now = before.heldAfter (rounds.take (k + 1)) ∧
      Tells (before.heldAfter (rounds.take k)) round now events ∧
      ∀ round', (∀ code, code ∈ round' ↔ code ∈ round) →
        (before.heldAfter (rounds.take k)).hear round' = (now, events)) ∧
    ∃ last, before.takeAll ((before.hearAll rounds).flatMap Prod.snd) = .ok last ∧
      (rounds = [] → last = before) ∧
      ∀ round, rounds.getLast? = some round →
        ∀ c, last.isHeld c = true ↔ ∃ code ∈ round, code % 16 = c := by
  constructor
  · intro k round hround
    refine ⟨_, _, getElem?_hearAll hround, (heldAfter_take_succ hround).symm,
      tells_hear _ round, ?_⟩
    intro round' hsame
    exact hear_congr hsame
  · refine ⟨_, before.takeAll_hearAll rounds, ?_, ?_⟩
    · intro hnil
      rw [hnil]
      rfl
    · intro round hlast c
      obtain ⟨earlier, rfl⟩ := List.getLast?_eq_some_iff.1 hlast
      rw [heldAfter_concat]
      exact isHeld_ofCodes_iff

/-- The keys 1 and F. -/
def oneAndF : Keypad :=
  ofCodes [0x1, 0xF]

/-- The keys 1 and A, by codes that come twice or are too large; no key; the keys 0 and F. -/
def threeRounds : List (List UInt8) :=
  [[0x1A, 0x01, 0xAA, 0x01], [], [0x20, 0xFF]]

/-- The first round tells that A went down and F went up, whatever the order of its codes, and
the events of all three leave F held and A not. -/
theorem threeRounds_carried :
    threeRounds[0]? = some [0x1A, 0x01, 0xAA, 0x01] ∧
    (∀ code : UInt8, code ∈ [0x01, 0xAA, 0x1A] ↔ code ∈ [0x1A, 0x01, 0xAA, 0x01]) ∧
    threeRounds.getLast? = some [0x20, 0xFF] ∧
    (∃ now events, (oneAndF.hearAll threeRounds)[0]? = some (now, events) ∧
      .down 0xA ∈ events ∧ .up 0xF ∈ events ∧ .down 0x1 ∉ events ∧
      oneAndF.hear [0x01, 0xAA, 0x1A] = (now, events)) ∧
    ∃ last, oneAndF.takeAll ((oneAndF.hearAll threeRounds).flatMap Prod.snd) = .ok last ∧
      last.isHeld 0xF = true ∧ last.isHeld 0xA = false := by
  have hround : threeRounds[0]? = some [0x1A, 0x01, 0xAA, 0x01] := rfl
  have hsame : ∀ code : UInt8,
      code ∈ [0x01, 0xAA, 0x1A] ↔ code ∈ [0x1A, 0x01, 0xAA, 0x01] := by
    grind
  have hlast : threeRounds.getLast? = some [0x20, 0xFF] := rfl
  obtain ⟨hrounds, last, htake, -, hheld⟩ := rounds_carry_keypad oneAndF threeRounds
  obtain ⟨now, events, hentry, -, htells, hordered⟩ := hrounds 0 _ hround
  have hone : oneAndF.isHeld 0x1 = true := by decide
  have hA : now.isHeld 0xA = true := (htells.held 0xA).2 ⟨0x1A, by decide, by decide⟩
  have hF : now.isHeld 0xF = false := by
    rw [← Bool.not_eq_true, htells.held]
    decide
  refine ⟨hround, hsame, hlast, ⟨now, events, hentry, ?_, ?_, ?_, hordered _ hsame⟩,
    last, htake, ?_, ?_⟩
  · exact (htells.down 0xA).2 ⟨by decide, hA⟩
  · exact (htells.up 0xF).2 ⟨by decide, hF⟩
  · intro hdown
    have hup : oneAndF.isHeld 0x1 = false := ((htells.down 0x1).1 hdown).1
    rw [hone] at hup
    cases hup
  · exact (hheld _ hlast 0xF).2 ⟨0xFF, by decide, by decide⟩
  · rw [← Bool.not_eq_true, hheld _ hlast]
    decide

end Keypad

end Chip8
