import Chip8.Proofs.SessionHistory

/-!
# What a session reads in a frame

Of the host keys a session sees which keypad keys are down, whether Escape is held, and
whether the pause and the reset key go down; with the steps and ticks of the frame, and
whether the window takes the picture, that is all that it reads.  So a session is told
by its inputs, and two sessions that read the same go on the same, whatever the host
keys were from which they read it.

* `Session.Input`, `Session.inputs` — what is read in a frame, and frame after frame;
* `Session.hear`, `Session.ran` — what the beginning of a frame makes of the session,
  and what its run makes of the machine;
* `Session.advance_eq_hear` — a frame is the one after the other;
* `Session.play_congr`, `Session.after?_congr` — sessions that read the same.
-/

namespace Chip8

namespace Session

/-- What a session reads in a frame. -/
structure Input where
  /-- Escape is held. -/
  leaves : Bool
  /-- The pause key goes down. -/
  pauses : Bool
  /-- The reset key goes down. -/
  resets : Bool
  /-- The keypad keys that are held. -/
  keypad : Keypad
  steps : Nat
  ticks : Nat
  windowWorks : Bool
  deriving DecidableEq, Repr

/-- The same, but that the pause key does not go down. -/
def Input.withoutPause (i : Input) : Input :=
  { i with pauses := false }

/-- What is read in a frame with these host keys held before it. -/
def inputOf (keysBefore : List HostKey) (f : Frame) : Input where
  leaves := ends f
  pauses := f.keys.contains .p && !keysBefore.contains .p
  resets := f.keys.contains .backspace && !keysBefore.contains .backspace
  keypad := keypadOf f
  steps := f.steps
  ticks := f.ticks
  windowWorks := f.windowWorks

/-- What is read in one frame after the other. -/
def inputs (keysBefore : List HostKey) : List Frame → List Input
  | [] => []
  | f :: fs => inputOf keysBefore f :: inputs f.keys fs

/-- The beginning of a frame: a reset, the report of the keys, and the pause.  The host
keys are only noted for the next frame. -/
def hear (program : Array UInt8) (s : Session) (i : Input) (keys : List HostKey) : Session :=
  let m := if i.resets then .start (.fresh program) s.machine.random else s.machine
  { s with
    machine := (deliverAll m (KeyEvent.between s.reported i.keypad)).1
    paused := s.paused ^^ i.pauses
    reported := i.keypad
    keysBefore := keys }

/-- The machine when it has run for a frame, and the fault if it failed. -/
def ran (s : Session) (f : Frame) : Machine × Option Fault :=
  if s.paused then (s.machine, none) else s.machine.runFrame f.steps f.ticks

variable {options : Options} {program : Array UInt8}

/-- The first inputs are those of the first frames. -/
theorem inputs_take (n : Nat) (keysBefore : List HostKey) (frames : List Frame) :
    inputs keysBefore (frames.take n) = (inputs keysBefore frames).take n := by
  induction frames generalizing n keysBefore with
  | nil => simp [inputs]
  | cons f frames ih =>
      cases n with
      | zero => rfl
      | succ n => simp only [List.take_succ_cons, inputs, ih]

/-- Where nothing is read there was no frame. -/
theorem inputs_eq_nil {keysBefore : List HostKey} {frames : List Frame}
    (h : inputs keysBefore frames = []) : frames = [] := by
  cases frames with
  | nil => rfl
  | cons f fs => cases h

/-- The first input is that of the first frame, and the later ones are read behind it. -/
theorem inputs_eq_cons {keysBefore : List HostKey} {frames : List Frame} {i : Input}
    {later : List Input} (h : inputs keysBefore frames = i :: later) :
    ∃ f fs, frames = f :: fs ∧ inputOf keysBefore f = i ∧ inputs f.keys fs = later := by
  cases frames with
  | nil => cases h
  | cons f fs => exact ⟨f, fs, rfl, (List.cons.inj h).1, (List.cons.inj h).2⟩

/-- The beginning of a frame depends on the host keys through what is read of them, and it
never fails. -/
theorem beginFrame_eq_hear (hfits : program.size ≤ Memory.programCapacity) (s : Session)
    (f : Frame) :
    s.beginFrame program f = (s.hear program (inputOf s.keysBefore f) f.keys, none) := by
  obtain ⟨keypad, registers, state, hdeliver, -⟩ :=
    deliverAll_between s.reported (keypadOf f) (restarted program s f)
  have hreset := resetOnKey_of_fits (s.togglePause f) f hfits
  rw [togglePause_eq] at hreset
  change _ = Except.ok { s with
    machine := restarted program s f, paused := s.paused ^^ s.goesDown f .p } at hreset
  have hheard : s.hear program (inputOf s.keysBefore f) f.keys =
      { s with
        machine :=
          (deliverAll (restarted program s f) (KeyEvent.between s.reported (keypadOf f))).1
        paused := s.paused ^^ s.goesDown f .p
        reported := keypadOf f
        keysBefore := f.keys } := rfl
  unfold beginFrame
  simp only [togglePause_eq, hreset, reportKeys, hheard, hdeliver, Option.map_none]

/-- The rest of a frame runs the machine, and paints unless that fails. -/
theorem endFrame_eq (options : Options) (s : Session) (f : Frame) :
    s.endFrame options f =
      match (s.ran f).2 with
      | some fault => ({ s with machine := (s.ran f).1 }, some (.fault fault))
      | none => ({ s with machine := (s.ran f).1 }.repaint options,
          if f.windowWorks then none else some (.window .notUpdated)) := by
  unfold endFrame runMachine ran
  by_cases hpaused : s.paused = true
  · rw [if_pos hpaused, if_pos hpaused]
  · rw [if_neg hpaused, if_neg hpaused]
    rcases s.machine.runFrame f.steps f.ticks with ⟨machine, _ | fault⟩
    · rfl
    · rfl

/-- A frame is what is heard, and then its rest. -/
theorem advance_eq_hear (options : Options) (hfits : program.size ≤ Memory.programCapacity)
    (s : Session) (f : Frame) :
    s.advance options program f =
      (s.hear program (inputOf s.keysBefore f) f.keys).endFrame options f := by
  unfold advance
  rw [beginFrame_eq_hear hfits]

/-- Two sessions that differ at most in the host keys held before. -/
def SameButKeys (s t : Session) : Prop :=
  t = { s with keysBefore := t.keysBefore }

namespace SameButKeys

variable {s t : Session} {f g : Frame}

theorem machine (h : SameButKeys s t) : t.machine = s.machine := by
  rw [h]

theorem picture (h : SameButKeys s t) : t.picture = s.picture := by
  rw [h]

/-- Sessions that differ in the host keys before alone hear the same of an input. -/
theorem hear (h : SameButKeys s t) (program : Array UInt8) (i : Input) (keys keys' : List HostKey) :
    SameButKeys (s.hear program i keys) (t.hear program i keys') := by
  unfold SameButKeys
  rw [h]
  rfl

/-- Sessions that differ in the host keys before alone end a frame alike. -/
theorem endFrame (h : SameButKeys s t) (options : Options) (hsteps : g.steps = f.steps)
    (hticks : g.ticks = f.ticks) (hwindow : g.windowWorks = f.windowWorks) :
    ∃ s' t' e, s.endFrame options f = (s', e) ∧ t.endFrame options g = (t', e) ∧
      SameButKeys s' t' ∧ s'.keysBefore = s.keysBefore ∧ t'.keysBefore = t.keysBefore := by
  have hran : t.ran g = s.ran f := by
    rw [h]
    unfold ran
    rw [hsteps, hticks]
  rw [endFrame_eq, endFrame_eq, hran, hwindow]
  cases (s.ran f).2 with
  | some fault =>
      refine ⟨_, _, _, rfl, rfl, ?_, rfl, rfl⟩
      unfold SameButKeys
      rw [h]
  | none =>
      refine ⟨_, _, _, rfl, rfl, ?_, ?_, ?_⟩
      · unfold SameButKeys
        rw [repaint_eq, repaint_eq, h]
      · rw [repaint_eq]
      · rw [repaint_eq]

/-- Sessions that read the same in a frame come out of it the same. -/
theorem advance (h : SameButKeys s t) (options : Options)
    (hfits : program.size ≤ Memory.programCapacity)
    (hinput : inputOf t.keysBefore g = inputOf s.keysBefore f) :
    ∃ s' t' e, s.advance options program f = (s', e) ∧ t.advance options program g = (t', e) ∧
      SameButKeys s' t' ∧ s'.keysBefore = f.keys ∧ t'.keysBefore = g.keys := by
  rw [advance_eq_hear options hfits, advance_eq_hear options hfits, hinput]
  exact (h.hear program _ f.keys g.keys).endFrame options (congrArg Input.steps hinput)
    (congrArg Input.ticks hinput) (congrArg Input.windowWorks hinput)

end SameButKeys

/-- What comes of sessions that read the same.  By induction on the frames: after each of
them both sessions have noted the host keys that the rest is read with. -/
theorem play_congr {s t : Session} {frames frames' : List Frame} (options : Options)
    (hfits : program.size ≤ Memory.programCapacity) (h : SameButKeys s t)
    (hinputs : inputs t.keysBefore frames' = inputs s.keysBefore frames) :
    play options program t frames' = play options program s frames := by
  induction frames generalizing s t frames' with
  | nil =>
      obtain rfl := inputs_eq_nil hinputs
      simp only [play, h.machine]
  | cons f frames ih =>
      obtain ⟨g, frames', rfl, hinput, hrest⟩ := inputs_eq_cons hinputs
      obtain ⟨s', t', e, hs, ht, h', hs', ht'⟩ := h.advance options hfits hinput
      have hends : ends g = ends f := congrArg Input.leaves hinput
      unfold play
      rw [hends, hs, ht, h.machine]
      cases e with
      | some e => simp only [h'.machine]
      | none =>
          rw [← hs', ← ht'] at hrest
          simp only [ih h' hrest, h'.picture]

/-- The machine and the picture after the frames of sessions that read the same. -/
theorem after?_congr {s t : Session} {frames frames' : List Frame} (options : Options)
    (hfits : program.size ≤ Memory.programCapacity) (h : SameButKeys s t)
    (hinputs : inputs t.keysBefore frames' = inputs s.keysBefore frames) :
    (after? options program t frames').map (fun t => (t.machine, t.picture)) =
      (after? options program s frames).map (fun s => (s.machine, s.picture)) := by
  induction frames generalizing s t frames' with
  | nil =>
      obtain rfl := inputs_eq_nil hinputs
      simp only [after?, Option.map_some, h.machine, h.picture]
  | cons f frames ih =>
      obtain ⟨g, frames', rfl, hinput, hrest⟩ := inputs_eq_cons hinputs
      obtain ⟨s', t', e, hs, ht, h', hs', ht'⟩ := h.advance options hfits hinput
      have hends : ends g = ends f := congrArg Input.leaves hinput
      unfold after?
      rw [hends, hs, ht]
      cases ends f with
      | true => rfl
      | false =>
          cases e with
          | some e => rfl
          | none =>
              rw [← hs', ← ht'] at hrest
              exact ih h' hrest

end Session

end Chip8
