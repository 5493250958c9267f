import Chip8.Proofs.Halted
import Chip8.Proofs.SessionHistory

/-!
# How a session ends

A session with a program that does not fit is over before it has begun.  Every other
session goes on until the window is closed, until Escape is held, or until a frame that
is not paused has the machine fail.  Nothing else in a frame can fail as long as the
window takes the pictures: the program that a reset loads is the one that has been
loaded before, and only keys that the keypad has are reported.

* `Machine.halted_of_runFrame` — a frame that fails leaves the machine halted with its
  fault;
* `Session.EndsAfter` — the ways in which a session can end, with the frames before;
* `Session.exists_endsAfter`, `Session.play_of_endsAfter` — every session ends in one of
  these ways, and what then comes of it;
* `Session.session_ends` — the two together, for a session from its start.
-/

namespace Chip8

namespace Machine

variable {m m' : Machine} {f : Fault}

/-- A step that fails leaves its fault in the machine. -/
theorem halted_of_step (h : m.step = (m', .error f)) : m'.state = .halted f := by
  cases hstate : m.state with
  | halted g =>
      rw [step_of_halted hstate] at h
      cases h
      exact hstate
  | awaitingKey x =>
      rw [step_of_awaitingKey hstate] at h
      cases h
  | running =>
      rcases step_cases hstate with ⟨e, -, hstep⟩ | ⟨word, -, -, hstep⟩ |
        ⟨word, i, e, -, -, -, hstep⟩ | ⟨word, i, -, -, -, hstep⟩
      · rw [hstep] at h
        cases h
        rfl
      · rw [hstep] at h
        cases h
        rfl
      · rw [hstep] at h
        cases h
        rfl
      · rw [hstep] at h
        cases h

/-- Steps that fail leave the fault in the machine. -/
theorem halted_of_runSteps {n : Nat} (h : m.runSteps n = (m', some f)) :
    m'.state = .halted f := by
  induction n generalizing m with
  | zero => cases h
  | succ n ih =>
      unfold runSteps at h
      split at h
      · next hstep =>
          cases h
          exact halted_of_step hstep
      · cases h
      · split at h
        · cases h
        · exact ih h

/-- A frame that fails leaves the machine halted with its fault. -/
theorem halted_of_runFrame {steps ticks : Nat} (h : m.runFrame steps ticks = (m', some f)) :
    m'.state = .halted f := by
  unfold runFrame at h
  split at h
  · next hsteps =>
      cases h
      exact halted_of_runSteps hsteps
  · cases h

end Machine

namespace Session

/-- The ways in which a session can end: with the frames that it has come through, and
the fault that ended it, if one did. -/
inductive EndsAfter (options : Options) (program : Array UInt8) (s : Session)
    (frames : List Frame) : List Frame → Option Fault → Prop where
  /-- The window is closed. -/
  | closed {last : Session} (hpast : after? options program s frames = some last) :
      EndsAfter options program s frames frames none
  /-- Escape is held. -/
  | left {past rest : List Frame} {f : Frame} {last : Session}
      (hframes : frames = past ++ f :: rest)
      (hpast : after? options program s past = some last) (hescape : .escape ∈ f.keys) :
      EndsAfter options program s frames past none
  /-- The machine fails while it runs for a frame that is not paused. -/
  | faulted {past rest : List Frame} {f : Frame} {last begun : Session} {fault : Fault}
      (hframes : frames = past ++ f :: rest) (hpast : after? options program s past = some last)
      (hescape : .escape ∉ f.keys) (hbegin : last.beginFrame program f = (begun, none))
      (hruns : begun.paused = false)
      (hfault : (begun.machine.runFrame f.steps f.ticks).2 = some fault) :
      EndsAfter options program s frames past (some fault)

variable {options : Options} {program : Array UInt8} {s : Session} {frames past : List Frame}
  {outcome : Option Fault}

/-- The user leaves by holding Escape. -/
theorem ends_eq_true_iff {f : Frame} : ends f = true ↔ .escape ∈ f.keys := by
  simp [ends]

/-- The end of a session is that of the session behind its first frame. -/
theorem EndsAfter.cons {f : Frame} {middle : Session} (hends : ends f = false)
    (hadvance : s.advance options program f = (middle, none))
    (h : EndsAfter options program middle frames past outcome) :
    EndsAfter options program s (f :: frames) (f :: past) outcome := by
  have hafter {past : List Frame} {last : Session}
      (hpast : after? options program middle past = some last) :
      after? options program s (f :: past) = some last :=
    after?_cons_eq_some.2 ⟨hends, middle, hadvance, hpast⟩
  cases h with
  | closed hpast => exact .closed (hafter hpast)
  | left hframes hpast hescape =>
      exact .left (congrArg (f :: ·) hframes) (hafter hpast) hescape
  | faulted hframes hpast hescape hbegin hruns hfault =>
      exact .faulted (congrArg (f :: ·) hframes) (hafter hpast) hescape hbegin hruns hfault

/-- **What a frame can come to.**  With a program that fits, the beginning of a frame
goes through.  Then the machine fails, in a frame that is not paused, or the picture is
given to the window. -/
theorem advance_cases (options : Options) (hfits : program.size ≤ Memory.programCapacity)
    (s : Session) (f : Frame) :
    ∃ begun, s.beginFrame program f = (begun, none) ∧
      ((∃ machine fault, begun.paused = false ∧
        begun.machine.runFrame f.steps f.ticks = (machine, some fault) ∧
        s.advance options program f = ({ begun with machine := machine }, some (.fault fault))) ∨
      ∃ s', s.advance options program f =
        (s', if f.windowWorks then none else some (.window .notUpdated))) := by
  obtain ⟨keypad, registers, state, hbegin, -⟩ := s.beginFrame_of_fits f hfits
  refine ⟨_, hbegin, ?_⟩
  unfold advance endFrame runMachine
  rw [hbegin]
  dsimp only
  cases hpaused : s.paused ^^ s.goesDown f .p with
  | true => exact Or.inr ⟨_, rfl⟩
  | false =>
      cases hrun : Machine.runFrame
          { restarted program s f with keypad := keypad, registers := registers, state := state }
          f.steps f.ticks with
      | mk machine failure =>
          cases failure with
          | some fault => exact Or.inl ⟨machine, fault, rfl, rfl, rfl⟩
          | none => exact Or.inr ⟨_, rfl⟩

/-- Every session whose window does not fail ends in one of these ways. -/
theorem exists_endsAfter (options : Options) (hfits : program.size ≤ Memory.programCapacity)
    (s : Session) (hwindow : ∀ f ∈ frames, f.windowWorks = true) :
    ∃ past outcome, EndsAfter options program s frames past outcome := by
  induction frames generalizing s with
  | nil => exact ⟨[], none, .closed rfl⟩
  | cons f frames ih =>
      by_cases hescape : .escape ∈ f.keys
      · exact ⟨[], none, .left (List.nil_append _).symm rfl hescape⟩
      · obtain ⟨begun, hbegin, ⟨machine, fault, hruns, hrun, -⟩ | ⟨s', hadvance⟩⟩ :=
          s.advance_cases options hfits f
        · exact ⟨[], some fault, .faulted (List.nil_append _).symm rfl hescape hbegin hruns
            (congrArg Prod.snd hrun)⟩
        · rw [if_pos (hwindow f List.mem_cons_self)] at hadvance
          obtain ⟨past, outcome, hend⟩ := ih s' fun g hg => hwindow g (List.mem_cons_of_mem f hg)
          have hends : ends f = false := by
            rw [← Bool.not_eq_true, ends_eq_true_iff]
            exact hescape
          exact ⟨f :: past, outcome, hend.cons hends hadvance⟩

/-- A fault in a frame is the end of the session, before the picture is shown. -/
theorem play_of_fault {last begun : Session} {f : Frame} {fault : Fault} (rest : List Frame)
    (hescape : .escape ∉ f.keys) (hbegin : last.beginFrame program f = (begun, none))
    (hruns : begun.paused = false)
    (hfault : (begun.machine.runFrame f.steps f.ticks).2 = some fault) :
    play options program last (f :: rest) =
      ⟨(begun.machine.runFrame f.steps f.ticks).1, [], some (.fault fault)⟩ := by
  have hadvance : last.advance options program f =
      ({ begun with machine := (begun.machine.runFrame f.steps f.ticks).1 },
        some (.fault fault)) := by
    unfold advance endFrame runMachine
    simp only [hbegin, hruns, hfault, Bool.false_eq_true, ↓reduceIte]
  have hends : ¬ ends f = true := by
    rw [ends_eq_true_iff]
    exact hescape
  rw [play, if_neg hends, hadvance]

/-- What comes of a session that ends in one of these ways. -/
theorem play_of_endsAfter (h : EndsAfter options program s frames past outcome) :
    (play options program s frames).failure = outcome.map .fault ∧
      (play options program s frames).shown.length = past.length ∧
      ∀ fault, outcome = some fault →
        (play options program s frames).machine.state = .halted fault := by
  cases h with
  | @closed last hpast =>
      obtain ⟨pictures, hlength, hplay⟩ := play_append hpast
      have hplay := hplay []
      have hrest : play options program last [] = ⟨last.machine, [], none⟩ := rfl
      rw [List.append_nil, hrest, List.append_nil] at hplay
      rw [hplay]
      exact ⟨rfl, hlength, fun fault h => by cases h⟩
  | @left past rest f last hframes hpast hescape =>
      obtain ⟨pictures, hlength, hplay⟩ := play_append hpast
      have hplay := hplay (f :: rest)
      have hrest : play options program last (f :: rest) = ⟨last.machine, [], none⟩ := by
        rw [play, if_pos (ends_eq_true_iff.2 hescape)]
      rw [hrest, List.append_nil] at hplay
      rw [hframes, hplay]
      exact ⟨rfl, hlength, fun fault h => by cases h⟩
  | @faulted past rest f last begun fault hframes hpast hescape hbegin hruns hfault =>
      obtain ⟨pictures, hlength, hplay⟩ := play_append hpast
      have hplay := hplay (f :: rest)
      rw [play_of_fault rest hescape hbegin hruns hfault, List.append_nil] at hplay
      rw [hframes, hplay]
      refine ⟨rfl, hlength, fun fault' h => ?_⟩
      cases h
      exact Machine.halted_of_runFrame (Prod.ext rfl hfault)

/-- **How a session ends.**  As long as the window does not fail, a session is refused
for its program if and only if that is longer than 3584 bytes, and then nothing has been
shown and the machine is as it was.  Every other session ends after some frames because
the window is closed or Escape is held, without a failure, or because the machine fails
in a frame that is not paused, and then with that fault and the machine halted with it;
either way one picture has been shown for each frame before.  Pausing, a reset and the
report of the keys never fail, in whatever frame. -/
theorem session_ends (options : Options) (program : Array UInt8) (m : Machine)
    (frames : List Frame) (hwindow : ∀ f ∈ frames, f.windowWorks = true) :
    ((∃ size capacity, (run options program true frames m).playback.failure =
        some (.machine (.programTooLarge size capacity))) ↔ 3584 < program.size) ∧
    (3584 < program.size → (run options program true frames m).playback =
      ⟨m, [], some (.machine (.programTooLarge program.size 3584))⟩) ∧
    (program.size ≤ 3584 → ∃ m₀, m.load program = .ok m₀ ∧
      (∃ past outcome, EndsAfter options program (start options m₀) frames past outcome) ∧
      (∀ past outcome, EndsAfter options program (start options m₀) frames past outcome →
        (run options program true frames m).playback.failure = outcome.map .fault ∧
        (run options program true frames m).playback.shown.length = past.length ∧
        ∀ fault, outcome = some fault →
          (run options program true frames m).playback.machine.state = .halted fault) ∧
      ∀ past s f, after? options program (start options m₀) past = some s →
        (s.beginFrame program f).2 = none) := by
  have hcapacity : Memory.programCapacity = 3584 := rfl
  have hlarge : 3584 < program.size → (run options program true frames m).playback =
      ⟨m, [], some (.machine (.programTooLarge program.size 3584))⟩ := by
    intro h
    rw [← hcapacity] at h
    simp only [run, m.load_of_large h, hcapacity]
  have hplays : program.size ≤ 3584 → ∃ m₀, m.load program = .ok m₀ ∧
      (run options program true frames m).playback =
        play options program (start options m₀) frames := by
    intro h
    rw [← hcapacity] at h
    refine ⟨_, m.load_of_fits h, ?_⟩
    simp only [run, m.load_of_fits h, ↓reduceIte]
  refine ⟨⟨?_, ?_⟩, hlarge, ?_⟩
  · rintro ⟨size, capacity, hfailure⟩
    apply Nat.lt_of_not_le
    intro hfits
    obtain ⟨m₀, -, hplay⟩ := hplays hfits
    obtain ⟨past, outcome, hend⟩ := exists_endsAfter options hfits (start options m₀) hwindow
    rw [hplay, (play_of_endsAfter hend).1] at hfailure
    cases outcome <;> cases hfailure
  · intro h
    exact ⟨_, _, congrArg Playback.failure (hlarge h)⟩
  · intro hfits
    obtain ⟨m₀, hload, hplay⟩ := hplays hfits
    rw [hplay]
    refine ⟨m₀, hload, exists_endsAfter options hfits _ hwindow,
      fun past outcome hend => play_of_endsAfter hend, ?_⟩
    intro past s f _
    obtain ⟨keypad, registers, state, hbegin, -⟩ := s.beginFrame_of_fits f hfits
    rw [hbegin]

/-- The session is paused in one frame, has a key reported in the next, and goes on in
the third. -/
def pausedReturn : List Frame :=
  [{ keys := [.p], steps := 9, ticks := 0 }, { keys := [.x], steps := 9, ticks := 0 },
    { keys := [.p, .x], steps := 9, ticks := 0 }, { keys := [], steps := 9, ticks := 0 }]

/-- The program fails in the frame in which the pause ends. -/
theorem endsAfter_pausedReturn :
    EndsAfter {} #[0x00, 0xEE] (start {} Machine.atEmptyReturn) pausedReturn
      (pausedReturn.take 2) (some Machine.emptyReturn) := by
  obtain ⟨last, begun, hpast, hbegin, hpaused, hstate, hmemory, hpc, hdepth⟩ :
      ∃ last begun,
        after? {} #[0x00, 0xEE] (start {} Machine.atEmptyReturn) (pausedReturn.take 2) =
          some last ∧
        last.beginFrame #[0x00, 0xEE] { keys := [.p, .x], steps := 9, ticks := 0 } =
          (begun, none) ∧
        begun.paused = false ∧ begun.machine.state = .running ∧
        begun.machine.memory = .fresh #[0x00, 0xEE] ∧ begun.machine.pc = 0x0200 ∧
        begun.machine.stack.depth = 0 :=
    ⟨_, _, rfl, rfl, rfl, rfl, rfl, rfl, rfl⟩
  have hword : begun.machine.memory.word begun.machine.pc = .ok 0x00EE := by
    rw [hmemory, hpc]
    exact Memory.word_fresh (by decide) rfl
  have hrefusal : begun.machine.refusal .ret = some .stackUnderflow := by
    rw [Machine.refusal_ret, if_pos hdepth]
  have hrest : pausedReturn = pausedReturn.take 2 ++
      { keys := [.p, .x], steps := 9, ticks := 0 } :: pausedReturn.drop 3 := rfl
  refine .faulted hrest hpast (by decide) hbegin hpaused ?_
  simp only [Machine.runFrame, Machine.runSteps,
    Machine.step_of_refused hstate hword rfl hrefusal, Machine.haltAt, hpc]
  rfl

/-- A return from no call fails in the third frame, the first that is not paused. -/
theorem pausedReturn_faults :
    (∀ f ∈ pausedReturn, f.windowWorks = true) ∧
    (run {} #[0x00, 0xEE] true pausedReturn (.boot (.ofSeed 7))).playback.failure =
      some (.fault Machine.emptyReturn) ∧
    (run {} #[0x00, 0xEE] true pausedReturn (.boot (.ofSeed 7))).playback.shown.length = 2 ∧
    (run {} #[0x00, 0xEE] true pausedReturn (.boot (.ofSeed 7))).playback.machine.state =
      .halted Machine.emptyReturn := by
  have hwindow : ∀ f ∈ pausedReturn, f.windowWorks = true := by decide
  have hfits : (#[0x00, 0xEE] : Array UInt8).size ≤ 3584 := by decide
  obtain ⟨-, -, hrun⟩ := session_ends {} #[0x00, 0xEE] (.boot (.ofSeed 7)) pausedReturn hwindow
  obtain ⟨m₀, hload, -, hends, -⟩ := hrun hfits
  obtain ⟨-, rfl⟩ := Machine.load_eq_ok hload
  obtain ⟨hfailure, hshown, hhalt⟩ := hends _ _ endsAfter_pausedReturn
  exact ⟨hwindow, hfailure, hshown, hhalt _ rfl⟩

end Session

end Chip8
