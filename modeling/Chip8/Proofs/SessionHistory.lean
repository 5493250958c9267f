import Chip8.Proofs.KeyDelivery
import Chip8.Proofs.Operation
import Chip8.Proofs.Persistence

/-!
# The frames of a session

`Session.play` tells what came of a session; here is the session itself, frame
after frame.

* `Session.after?` — the session after a number of frames, if none of them ended
  it, and `Session.after?_induct`, what such a session has from the frames that
  it has seen;
* `Session.shown_getElem?` — the pictures that are shown are those of the
  sessions on the way;
* `Session.play_append` — what came of a session is what came of it behind frames that
  did not end it, and the pictures shown before;
* `Session.beginFrame_of_fits` — with a program that fits, the beginning of a
  frame does not fail: the reset loads the program and every key is reported;
* `Session.endFrame_eq_ok` — the rest of a frame lets the machine run and paints.
-/

namespace Chip8

namespace Session

/-- The session after all of these frames, if none of them ends it. -/
def after? (options : Options) (program : Array UInt8) (s : Session) : List Frame → Option Session
  | [] => some s
  | f :: fs =>
      if ends f then none
      else
        match s.advance options program f with
        | (_, some _) => none
        | (s', none) => after? options program s' fs

variable {options : Options} {program : Array UInt8}

/-- A session is what its frames have made of it one by one.  The frames seen so
far are listed with the latest first. -/
theorem after?_induct {P : List Frame → Session → Prop} {s s' : Session} {fs : List Frame}
    (hstart : P [] s)
    (hframe : ∀ past s f s', P past s → ends f = false →
      s.advance options program f = (s', none) → P (f :: past) s')
    (h : after? options program s fs = some s') : P fs.reverse s' := by
  suffices ∀ past s, P past s → after? options program s fs = some s' →
      P (fs.reverse ++ past) s' by
    simpa using this [] s hstart h
  clear hstart h s
  induction fs with
  | nil =>
      intro past s hpast h
      cases h
      exact hpast
  | cons f fs ih =>
      intro past s hpast h
      unfold after? at h
      split at h
      · cases h
      · next hends =>
          split at h
          · cases h
          · next middle hadvance =>
              rw [List.reverse_cons, List.append_assoc]
              exact ih (f :: past) middle
                (hframe past s f middle hpast (by simpa using hends) hadvance) h

/-- The pictures shown are those of the sessions after one frame, two frames and
so on. -/
theorem shown_getElem? (s : Session) (fs : List Frame) (k : Nat) :
    (play options program s fs).shown[k]? =
      if k < fs.length then (after? options program s (fs.take (k + 1))).map (·.picture)
      else none := by
  induction fs generalizing s k with
  | nil => simp [play]
  | cons f fs ih =>
      unfold play
      by_cases hends : ends f = true
      · simp [hends, after?]
      · simp only [hends, Bool.false_eq_true, ↓reduceIte]
        cases hadvance : s.advance options program f with
        | mk s' failure =>
            cases failure with
            | some e => simp [after?, hends, hadvance]
            | none =>
                cases k with
                | zero => simp [after?, hends, hadvance]
                | succ k => simp [after?, hends, hadvance, ih]

/-- A session goes through some frames if it goes through the first and from there through
the rest. -/
theorem after?_cons_eq_some {s s' : Session} {f : Frame} {frames : List Frame} :
    after? options program s (f :: frames) = some s' ↔ ends f = false ∧ ∃ middle,
      s.advance options program f = (middle, none) ∧
        after? options program middle frames = some s' := by
  rw [after?]
  cases hends : ends f with
  | true => simp
  | false =>
      rcases s.advance options program f with ⟨middle, _ | failure⟩
      · simp
      · simp

/-- Frames that follow others act on the session that those have made. -/
theorem after?_append (s : Session) (past frames : List Frame) :
    after? options program s (past ++ frames) =
      (after? options program s past).bind fun s' => after? options program s' frames := by
  induction past generalizing s with
  | nil => rfl
  | cons f past ih =>
      rw [List.cons_append, after?, after?]
      cases hends : ends f with
      | true => rfl
      | false =>
          rcases s.advance options program f with ⟨middle, _ | failure⟩
          · exact ih middle
          · rfl

/-- A frame that goes through adds its picture to those of the rest. -/
theorem play_cons {s middle : Session} {f : Frame} (hends : ends f = false)
    (hadvance : s.advance options program f = (middle, none)) (frames : List Frame) :
    play options program s (f :: frames) =
      { play options program middle frames with
        shown := middle.picture :: (play options program middle frames).shown } := by
  rw [play, hends, hadvance]
  rfl

/-- Frames that do not end a session only add their pictures to what comes of it. -/
theorem play_append {s s' : Session} {past : List Frame}
    (hpast : after? options program s past = some s') :
    ∃ pictures, pictures.length = past.length ∧ ∀ frames,
      play options program s (past ++ frames) =
        { play options program s' frames with
          shown := pictures ++ (play options program s' frames).shown } := by
  induction past generalizing s with
  | nil =>
      cases hpast
      exact ⟨[], rfl, fun _ => rfl⟩
  | cons f past ih =>
      obtain ⟨hends, middle, hadvance, hrest⟩ := after?_cons_eq_some.1 hpast
      obtain ⟨pictures, hlength, hplay⟩ := ih hrest
      refine ⟨middle.picture :: pictures, congrArg (· + 1) hlength, fun frames => ?_⟩
      rw [List.cons_append, play_cons hends hadvance, hplay]
      rfl

/-- The machine that a frame starts from: a fresh one if the reset key goes
down. -/
def restarted (program : Array UInt8) (s : Session) (f : Frame) : Machine :=
  if s.goesDown f .backspace then .start (.fresh program) s.machine.random else s.machine

theorem togglePause_eq (s : Session) (f : Frame) :
    s.togglePause f = { s with paused := s.paused ^^ s.goesDown f .p } := by
  unfold togglePause
  cases s.goesDown f .p with
  | true => simp
  | false => simp

/-- A reset loads a program that fits, and never fails. -/
theorem resetOnKey_of_fits (s : Session) (f : Frame)
    (hfits : program.size ≤ Memory.programCapacity) :
    s.resetOnKey program f = .ok { s with machine := restarted program s f } := by
  unfold resetOnKey restarted
  split
  · rw [s.machine.load_of_fits hfits]
  · rfl

/-- The beginning of a frame takes note of the keys that are down.  Beside the
keypad, the registers and the run state it leaves the machine as the reset left
it. -/
theorem beginFrame_of_fits (s : Session) (f : Frame)
    (hfits : program.size ≤ Memory.programCapacity) :
    ∃ keypad registers state,
      s.beginFrame program f =
        ({ s with
            machine := { restarted program s f with
              keypad := keypad, registers := registers, state := state }
            paused := s.paused ^^ s.goesDown f .p
            reported := keypadOf f
            keysBefore := f.keys }, none) ∧
      ∀ c : UInt8, c.toNat < 16 → keypad.isHeld c =
        if s.reported.isHeld c ≠ (keypadOf f).isHeld c then (keypadOf f).isHeld c
        else (restarted program s f).keypad.isHeld c := by
  obtain ⟨keypad, registers, state, hdeliver, hheld⟩ :=
    deliverAll_between s.reported (keypadOf f) (restarted program s f)
  refine ⟨keypad, registers, state, ?_, hheld⟩
  have hreset := resetOnKey_of_fits (s.togglePause f) f hfits
  rw [togglePause_eq] at hreset
  change _ = Except.ok { s with
    machine := restarted program s f, paused := s.paused ^^ s.goesDown f .p } at hreset
  unfold beginFrame
  simp only [togglePause_eq, hreset, reportKeys, hdeliver, Option.map_none]

/-- A frame that went through went through in both of its parts. -/
theorem advance_eq_ok {s s' : Session} {f : Frame}
    (h : s.advance options program f = (s', none)) :
    ∃ middle, s.beginFrame program f = (middle, none) ∧
      middle.endFrame options f = (s', none) := by
  unfold advance at h
  split at h
  · cases h
  · next middle hbegin => exact ⟨middle, hbegin, h⟩

/-- Painting takes the mark away, and paints anew if there was one. -/
theorem repaint_eq (options : Options) (s : Session) :
    s.repaint options =
      { s with
        machine := { s.machine with raster := { s.machine.raster with dirty := false } }
        picture :=
          if s.machine.raster.dirty then
            s.machine.raster.render options.foreground options.background s.picture
          else s.picture } := by
  unfold repaint Machine.takeFrame Raster.take
  cases s.machine.raster.dirty <;> rfl

/-- A frame that is granted no steps goes through. -/
theorem advance_of_no_steps (options : Options) (s : Session) {f : Frame}
    (hfits : program.size ≤ Memory.programCapacity) (hsteps : f.steps = 0)
    (hwindow : f.windowWorks = true) : ∃ s', s.advance options program f = (s', none) := by
  obtain ⟨keypad, registers, state, hbegin, -⟩ := s.beginFrame_of_fits f hfits
  unfold advance endFrame runMachine
  simp only [hbegin, hsteps, hwindow, Machine.runFrame, Machine.runSteps]
  cases s.paused ^^ s.goesDown f .p with
  | true => exact ⟨_, rfl⟩
  | false => exact ⟨_, rfl⟩

/-- A session goes through frames that are granted no steps. -/
theorem exists_after?_of_no_steps (options : Options) (s : Session) {fs : List Frame}
    (hfits : program.size ≤ Memory.programCapacity)
    (hfs : ∀ f ∈ fs, ends f = false ∧ f.steps = 0 ∧ f.windowWorks = true) :
    ∃ s', after? options program s fs = some s' := by
  induction fs generalizing s with
  | nil => exact ⟨s, rfl⟩
  | cons f fs ih =>
      obtain ⟨hends, hsteps, hwindow⟩ := hfs f List.mem_cons_self
      obtain ⟨middle, hadvance⟩ := s.advance_of_no_steps options hfits hsteps hwindow
      obtain ⟨s', hs'⟩ := ih middle fun g hg => hfs g (List.mem_cons_of_mem f hg)
      refine ⟨s', ?_⟩
      unfold after?
      simp only [hends, hadvance, Bool.false_eq_true, ↓reduceIte]
      exact hs'

/-- The rest of a frame repaints after a run of the machine, and so after
anything that runs keep. -/
theorem endFrame_eq_ok {R : Machine → Machine → Prop} (hR : Machine.Persistent R)
    (htick : ∀ m, R m m.tick) {s s' : Session} {f : Frame}
    (h : s.endFrame options f = (s', none)) :
    ∃ machine, R s.machine machine ∧ s' = { s with machine := machine }.repaint options := by
  have hrun := hR.runFrame htick s.machine f.steps f.ticks
  unfold endFrame at h
  split at h
  · cases h
  · next ran hran =>
      have hrepaint : s' = ran.repaint options := (Prod.mk.inj h).1.symm
      unfold runMachine at hran
      split at hran
      · cases hran
        exact ⟨s.machine, hR.refl _, hrepaint⟩
      · cases hframe : s.machine.runFrame f.steps f.ticks with
        | mk machine failure =>
            rw [hframe] at hran hrun
            cases hran
            exact ⟨machine, hrun, hrepaint⟩

end Session

end Chip8
