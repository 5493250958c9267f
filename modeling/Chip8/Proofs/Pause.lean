import Chip8.Proofs.PausedFrame

/-!
# Pausing is transparent

A session that was paused for some frames goes on as if they had not been.  The frames
pass over it (`Session.Idled`), and when the pause key goes down again it stands where
it stood, but for the mark of the raster and for the host keys of the frame before.
The mark is gone after the next picture, and of the host keys only what is read from
them counts.

* `Session.letGo` — frames without a key that was held;
* `Session.advance_resumed` — the frame in which the pause ends;
* `Session.play_resumed`, `Session.after?_resumed` — what comes after it;
* `Session.pausing_is_transparent` — a paused frame, and a session with and without a
  pause.
-/

namespace Chip8

namespace Session

/-- The frames without the pause key, if it is held from the first of them on, for as long as
it is held. -/
def letGo : List Frame → List Frame
  | [] => []
  | f :: fs =>
      if f.keys.contains .p then { f with keys := f.keys.filter (· != .p) } :: letGo fs
      else f :: fs

section LetGo

variable {keysBefore : List HostKey} {f : Frame} {frames : List Frame}

/-- Letting go of the pause key leaves the other keys held. -/
theorem contains_filter_ne_p {keys : List HostKey} {key : HostKey} (hne : key ≠ .p) :
    (keys.filter (· != .p)).contains key = keys.contains key := by
  rw [Bool.eq_iff_iff]
  simp [hne]

theorem not_contains_filter_ne_p (keys : List HostKey) :
    (keys.filter (· != .p)).contains .p = false := by
  rw [Bool.eq_false_iff]
  simp

/-- The pause key is no key of the keypad. -/
theorem keypadOf_letGo (f : Frame) :
    keypadOf { f with keys := f.keys.filter (· != .p) } = keypadOf f := by
  have hcodes : (f.keys.filter (· != .p)).filterMap HostKey.code? =
      f.keys.filterMap HostKey.code? := by
    rw [List.filterMap_filter]
    congr 1
    funext key
    cases key <;> rfl
  simp only [keypadOf, hcodes]

/-- What is read in a frame without the pause key, if Backspace was held before as it was. -/
theorem inputOf_letGo {keysBefore' : List HostKey} (f : Frame)
    (hbefore : keysBefore'.contains .backspace = keysBefore.contains .backspace) :
    inputOf keysBefore' { f with keys := f.keys.filter (· != .p) } =
      (inputOf keysBefore f).withoutPause := by
  have hleaves : (f.keys.filter (· != .p)).contains .escape = f.keys.contains .escape :=
    contains_filter_ne_p (by decide)
  have hresets : (f.keys.filter (· != .p)).contains .backspace = f.keys.contains .backspace :=
    contains_filter_ne_p (by decide)
  simp only [inputOf, Input.withoutPause, ends, keypadOf_letGo, hleaves, hresets, hbefore,
    not_contains_filter_ne_p, Bool.false_and]

/-- A pause key that is let go although it was held is not missed. -/
theorem inputs_letGo_of_held (hheld : keysBefore.contains .p = true) :
    inputs (keysBefore.filter (· != .p)) (letGo frames) = inputs keysBefore frames := by
  induction frames generalizing keysBefore with
  | nil => rfl
  | cons f frames ih =>
      have hbefore : (keysBefore.filter (· != .p)).contains .backspace =
          keysBefore.contains .backspace := contains_filter_ne_p (by decide)
      cases hnow : f.keys.contains .p with
      | true =>
          have hpauses : (inputOf keysBefore f).pauses = false := by
            simp only [inputOf, hheld, Bool.not_true, Bool.and_false]
          simp only [letGo, hnow, ↓reduceIte, inputs, ih hnow, inputOf_letGo f hbefore,
            Input.withoutPause]
          rw [← hpauses]
      | false =>
          simp only [letGo, hnow, Bool.false_eq_true, ↓reduceIte, inputs, inputOf, hbefore,
            Bool.false_and]

/-- Of a pause key that is let go, no more than its going down is missed. -/
theorem inputs_letGo {keysBefore' : List HostKey} (hdown : f.keys.contains .p = true)
    (hbefore : keysBefore'.contains .backspace = keysBefore.contains .backspace) :
    inputs keysBefore' (letGo (f :: frames)) =
      (inputOf keysBefore f).withoutPause :: inputs f.keys frames := by
  simp only [letGo, hdown, ↓reduceIte, inputs, inputOf_letGo f hbefore,
    inputs_letGo_of_held hdown]

end LetGo

variable {options : Options} {program : Array UInt8} {s s₁ u u₁ : Session} {f g : Frame}

/-- Two sessions whose machines differ at most in the mark run alike for a frame. -/
theorem ran_withMark {dirty : Bool} (hmachine : u₁.machine = u.machine.withMark dirty)
    (hpaused : u₁.paused = u.paused) (hsteps : f.steps = g.steps) (hticks : f.ticks = g.ticks) :
    ∃ dirty', u₁.ran f = ((u.ran g).1.withMark dirty', (u.ran g).2) := by
  unfold ran
  rw [hmachine, hpaused, hsteps, hticks]
  cases u.paused with
  | true => exact ⟨dirty, rfl⟩
  | false => exact u.machine.runFrame_withMark dirty g.steps g.ticks

/-- Two sessions whose machines differ at most in the mark end their frames alike, and paint
alike when both pictures were up to date.  Painting takes the mark away, and with it all that
told the machines apart. -/
theorem endFrame_withMark {dirty : Bool} (hmachine : u₁.machine = u.machine.withMark dirty)
    (hpaused : u₁.paused = u.paused) (hreported : u₁.reported = u.reported)
    (hu : UpToDate options u.picture u.machine.raster)
    (hu₁ : UpToDate options u₁.picture u₁.machine.raster) (hsteps : f.steps = g.steps)
    (hticks : f.ticks = g.ticks) (hwindow : f.windowWorks = g.windowWorks) :
    ∃ t t₁ e, u.endFrame options g = (t, e) ∧ u₁.endFrame options f = (t₁, e) ∧
      (∃ dirty', t₁.machine = t.machine.withMark dirty') ∧
      (u₁.machine = u.machine → t₁.machine = t.machine) ∧
      (e = none → SameButKeys t t₁) ∧ t.keysBefore = u.keysBefore ∧
      t₁.keysBefore = u₁.keysBefore := by
  obtain ⟨dirty', hran⟩ := ran_withMark hmachine hpaused hsteps hticks
  have hsame : u₁.machine = u.machine → u₁.ran f = u.ran g := by
    intro h
    unfold ran
    rw [h, hpaused, hsteps, hticks]
  have hend := endFrame_eq options u g
  have hend₁ := endFrame_eq options u₁ f
  rw [hran] at hend₁ hsame
  cases hg : u.ran g with
  | mk machine failure =>
      rw [hg] at hend hend₁ hsame
      cases failure with
      | some fault =>
          refine ⟨_, _, _, hend, hend₁, ⟨dirty', rfl⟩, fun h => congrArg Prod.fst (hsame h), ?_,
            rfl, rfl⟩
          intro he
          cases he
      | none =>
          have hpainted : ({ u₁ with machine := machine.withMark dirty' }.repaint options).machine =
              ({ u with machine := machine }.repaint options).machine := by
            rw [repaint_eq, repaint_eq]
            rfl
          rw [hwindow] at hend₁
          refine ⟨_, _, _, hend, hend₁, ⟨_, hpainted.trans (Machine.withMark_self _).symm⟩,
            fun _ => hpainted, ?_, ?_, ?_⟩
          · intro he
            have hshows := shows_endFrame hu (hend.trans (congrArg (Prod.mk _) he))
            have hshows₁ := shows_endFrame hu₁ (hend₁.trans (congrArg (Prod.mk _) he))
            rw [hpainted] at hshows₁
            have hpicture := hshows₁.unique hshows
            rw [repaint_eq, repaint_eq] at hpicture
            unfold SameButKeys
            rw [repaint_eq, repaint_eq]
            simp only at hpicture
            simp only [hpicture, hpaused, hreported]
            rfl
          · rw [repaint_eq]
          · rw [repaint_eq]

/-- The beginning of a frame keeps the picture up to date. -/
theorem upToDate_hear (hfits : program.size ≤ Memory.programCapacity)
    (hs : UpToDate options s.picture s.machine.raster) (f : Frame) :
    UpToDate options (s.hear program (inputOf s.keysBefore f) f.keys).picture
      (s.hear program (inputOf s.keysBefore f) f.keys).machine.raster :=
  upToDate_beginFrame hfits hs (beginFrame_eq_hear hfits s f)

/-- What two sessions hear brings their machines no further apart than the mark, if they
hear the same of reset and keypad. -/
theorem hear_machine_withMark {dirty : Bool} (hmachine : s₁.machine = s.machine.withMark dirty)
    (hreported : s₁.reported = s.reported) (program : Array UInt8) {i j : Input}
    (hresets : j.resets = i.resets) (hkeypad : j.keypad = i.keypad) (keys keys' : List HostKey) :
    (∃ dirty', (s₁.hear program i keys').machine =
      (s.hear program j keys).machine.withMark dirty') ∧
    (s₁.machine = s.machine →
      (s₁.hear program i keys').machine = (s.hear program j keys).machine) := by
  simp only [hear, hreported, hresets, hkeypad]
  constructor
  · rw [hmachine]
    cases i.resets with
    | true => exact ⟨_, (Machine.withMark_self _).symm⟩
    | false => exact ⟨dirty, congrArg Prod.fst (deliverAll_withMark s.machine dirty _)⟩
  · intro h
    rw [h]

/-- The frame in which the pause key goes down again is the one that a session without
the pause has. -/
theorem advance_resumed (program : Array UInt8)
    (hfits : program.size ≤ Memory.programCapacity)
    (hs : UpToDate options s.picture s.machine.raster) (hpaused : s.paused = false)
    (hidled : Idled options s s₁) (hresume : (inputOf s₁.keysBefore f).pauses = true)
    (hinput : inputOf s.keysBefore g = (inputOf s₁.keysBefore f).withoutPause) :
    ∃ t t₁ e, s.advance options program g = (t, e) ∧ s₁.advance options program f = (t₁, e) ∧
      (∃ dirty, t₁.machine = t.machine.withMark dirty) ∧
      (s.machine.raster.dirty = false → t₁.machine = t.machine) ∧
      (e = none → SameButKeys t t₁) ∧ t.keysBefore = g.keys ∧ t₁.keysBefore = f.keys := by
  have hpauses : (inputOf s.keysBefore g).pauses = false := congrArg Input.pauses hinput
  have hresets : (inputOf s.keysBefore g).resets = (inputOf s₁.keysBefore f).resets :=
    by rw [hinput, Input.withoutPause]
  have hkeypad : (inputOf s.keysBefore g).keypad = (inputOf s₁.keysBefore f).keypad :=
    by rw [hinput, Input.withoutPause]
  obtain ⟨⟨dirty, hmark⟩, hsame⟩ := hear_machine_withMark hidled.machine hidled.reported program
    hresets hkeypad g.keys f.keys
  have hruns : (s₁.hear program (inputOf s₁.keysBefore f) f.keys).paused =
      (s.hear program (inputOf s.keysBefore g) g.keys).paused := by
    simp only [hear, hidled.paused, hresume, hpaused, hpauses, Bool.xor_self]
  obtain ⟨t, t₁, e, ht, ht₁, hmachine, hexact, hkeys, hbefore, hbefore₁⟩ :=
    endFrame_withMark hmark hruns hkeypad.symm (upToDate_hear hfits hs g)
      (upToDate_hear hfits hidled.picture f) (congrArg Input.steps hinput).symm
      (congrArg Input.ticks hinput).symm (congrArg Input.windowWorks hinput).symm
  rw [advance_eq_hear options hfits, advance_eq_hear options hfits]
  refine ⟨t, t₁, e, ht, ht₁, hmachine, ?_, hkeys, hbefore, hbefore₁⟩
  intro hclean
  exact hexact (hsame (hidled.machine_of_clean hclean))

/-- What comes of a session when the pause ends is what comes of it without the pause.  Where
the user leaves at once, the machine is still the one that the pause has left. -/
theorem play_resumed (program : Array UInt8)
    (hfits : program.size ≤ Memory.programCapacity)
    (hs : UpToDate options s.picture s.machine.raster) (hpaused : s.paused = false)
    (hidled : Idled options s s₁) {rest cut : List Frame} {resume : Input} {later : List Input}
    (hrest : inputs s₁.keysBefore rest = resume :: later) (hresume : resume.pauses = true)
    (hcut : inputs s.keysBefore cut = resume.withoutPause :: later) :
    (∃ dirty, play options program s₁ rest =
      { play options program s cut with
        machine := (play options program s cut).machine.withMark dirty }) ∧
    (s.machine.raster.dirty = false →
      play options program s₁ rest = play options program s cut) := by
  obtain ⟨f, fs, rfl, rfl, hfs⟩ := inputs_eq_cons hrest
  obtain ⟨g, gs, rfl, hinput, hgs⟩ := inputs_eq_cons hcut
  have hends : ends g = ends f := congrArg Input.leaves hinput
  obtain ⟨t, t₁, e, ht, ht₁, ⟨dirty, hmachine⟩, hexact, hsame, hbefore, hbefore₁⟩ :=
    advance_resumed program hfits hs hpaused hidled hresume hinput
  unfold play
  rw [ht, ht₁, hends]
  cases ends f with
  | true =>
      refine ⟨⟨false, ?_⟩, ?_⟩
      · simp only [↓reduceIte, hidled.machine]
      · intro hclean
        simp only [↓reduceIte, hidled.machine_of_clean hclean]
  | false =>
      cases e with
      | some e =>
          refine ⟨⟨dirty, ?_⟩, ?_⟩
          · simp only [Bool.false_eq_true, ↓reduceIte, hmachine]
          · intro hclean
            simp only [Bool.false_eq_true, ↓reduceIte, hexact hclean]
      | none =>
          have hkeys := hsame rfl
          have hlater : inputs t₁.keysBefore fs = inputs t.keysBefore gs := by
            rw [hbefore, hbefore₁, hfs, hgs]
          simp only [Bool.false_eq_true, ↓reduceIte, play_congr options hfits hkeys hlater,
            hkeys.picture]
          exact ⟨⟨_, rfl⟩, fun _ => trivial⟩

/-- So are the machines and the pictures after every later frame. -/
theorem after?_resumed (program : Array UInt8)
    (hfits : program.size ≤ Memory.programCapacity)
    (hs : UpToDate options s.picture s.machine.raster) (hpaused : s.paused = false)
    (hidled : Idled options s s₁) {rest cut : List Frame} {resume : Input} {later : List Input}
    (hrest : inputs s₁.keysBefore rest = resume :: later) (hresume : resume.pauses = true)
    (hcut : inputs s.keysBefore cut = resume.withoutPause :: later) (n : Nat) :
    (after? options program s₁ (rest.take (n + 1))).map (fun t => (t.machine, t.picture)) =
      (after? options program s (cut.take (n + 1))).map (fun t => (t.machine, t.picture)) := by
  obtain ⟨f, fs, rfl, rfl, hfs⟩ := inputs_eq_cons hrest
  obtain ⟨g, gs, rfl, hinput, hgs⟩ := inputs_eq_cons hcut
  have hends : ends g = ends f := congrArg Input.leaves hinput
  obtain ⟨t, t₁, e, ht, ht₁, -, -, hsame, hbefore, hbefore₁⟩ :=
    advance_resumed program hfits hs hpaused hidled hresume hinput
  simp only [List.take_succ_cons, after?, ht, ht₁, hends]
  cases ends f with
  | true => rfl
  | false =>
      cases e with
      | some e => rfl
      | none =>
          have hlater : inputs t₁.keysBefore (fs.take n) = inputs t.keysBefore (gs.take n) := by
            rw [inputs_take, inputs_take, hbefore, hbefore₁, hfs, hgs]
          exact after?_congr options hfits (hsame rfl) hlater

/-- A pause as it is read: the pause key goes down in the first frame and in no other,
nothing is reset, and the keypad stays as it is. -/
structure IsPause (keypad : Keypad) (stretch : List Input) : Prop where
  pressed : ∃ first others, stretch = first :: others ∧ first.pauses = true ∧
    ∀ i ∈ others, i.pauses = false
  calm : ∀ i ∈ stretch, i.Calm keypad

/-- A session that a pause has passed over is as before, its mark and the host keys apart:
the first frame pauses it, and none of the others wakes it. -/
theorem IsPause.idled {stretch : List Frame}
    (hpause : IsPause s.reported (inputs s.keysBefore stretch))
    (hs : UpToDate options s.picture s.machine.raster) (hpaused : s.paused = false)
    (h : after? options program s stretch = some s₁) : Idled options s s₁ := by
  obtain ⟨first, others, hstretch, hfirst, hothers⟩ := hpause.pressed
  have hcalm := hpause.calm
  obtain ⟨f, fs, rfl, rfl, rfl⟩ := inputs_eq_cons hstretch
  obtain ⟨-, middle, hadvance, hrest⟩ := after?_cons_eq_some.1 h
  have hpauses : (s.paused ^^ s.goesDown f .p) = true := by
    have hdown : s.goesDown f .p = true := hfirst
    rw [hpaused, hdown]
    rfl
  obtain ⟨hidled, hkeys⟩ := idled_advance hs hpauses (hcalm _ List.mem_cons_self) hadvance
  refine hidled.after? ?_ hrest
  rw [hkeys]
  intro i hi
  exact ⟨hothers i hi, hcalm i (List.mem_cons_of_mem _ hi)⟩

/-- A frame that goes through has taken the mark away. -/
theorem clean_advance {s' : Session} (h : s.advance options program f = (s', none)) :
    s'.machine.raster.dirty = false := by
  obtain ⟨middle, -, hend⟩ := advance_eq_ok h
  obtain ⟨machine, -, rfl⟩ := endFrame_eq_ok Machine.persistent_marked (fun _ => Or.inl rfl) hend
  rw [repaint_eq]

/-- After a frame or more the mark is taken away. -/
theorem clean_after? {past : List Frame} {s₀ : Session} (hpast : past ≠ [])
    (h : after? options program s₀ past = some s) : s.machine.raster.dirty = false := by
  have hclean := after?_induct (P := fun past s => past ≠ [] → s.machine.raster.dirty = false)
    (fun hnil => absurd rfl hnil) (fun _ _ _ _ _ _ hadvance _ => clean_advance hadvance) h
  exact hclean fun hnil => hpast (List.reverse_eq_nil_iff.1 hnil)

/-- The picture of a session that has begun is up to date. -/
theorem upToDate_after? {m : Machine} {past : List Frame}
    (hfits : program.size ≤ Memory.programCapacity) (hdirty : m.raster.dirty = true)
    (h : after? options program (start options m) past = some s) :
    UpToDate options s.picture s.machine.raster := by
  by_cases hpast : past = []
  · subst hpast
    cases h
    exact upToDate_start hdirty
  · have hshows := shows_after? hfits hdirty hpast h
    exact ⟨hshows.size, fun _ => hshows⟩

/-- **Pausing is transparent.**  A paused frame in which nothing is reset leaves alone
what the program has computed, and all registers but one that a key is awaited for: the
key that goes down is stored there, of several the one with the lowest code.

Hence a pause of a session, from a frame in which the pause key goes down up to the next
such frame, without a reset and with the keypad as it was, may be left out.  The session
that reads, after the same past, at once what the other one reads from the end of the
pause on, without the second press, shows the same pictures before and behind, fails
alike, and has the same machine after every frame and at its end.  Only when the pause
was the very beginning and the first frame behind it fails does the mark of the raster,
which no picture has taken away then, tell the two machines apart. -/
theorem pausing_is_transparent (options : Options) (program : Array UInt8) :
    (∀ (s : Session) (f : Frame), (s.paused ^^ s.goesDown f .p) = true →
      s.goesDown f .backspace = false →
      s.machine.Undisturbed (s.advance options program f).1.machine ∧
      ∀ y, (s.advance options program f).1.machine.reg y =
        if s.machine.state = .awaitingKey y then
          (KeyEvent.firstDown s.reported (keypadOf f)).getD (s.machine.reg y)
        else s.machine.reg y) ∧
    ∀ (m m₀ : Machine) (past stretch rest cut : List Frame) (s s₁ : Session) (resume : Input)
        (later : List Input),
      m.load program = .ok m₀ → after? options program (start options m₀) past = some s →
      s.paused = false → IsPause s.reported (inputs s.keysBefore stretch) →
      after? options program s stretch = some s₁ →
      inputs s₁.keysBefore rest = resume :: later → resume.pauses = true →
      inputs s.keysBefore cut = resume.withoutPause :: later →
      let whole := (run options program true (past ++ stretch ++ rest) m).playback
      let short := (run options program true (past ++ cut) m).playback
      (∃ before during after, before.length = past.length ∧ during.length = stretch.length ∧
        whole.shown = before ++ during ++ after ∧ short.shown = before ++ after) ∧
      whole.failure = short.failure ∧
      whole.machine.takeFrame.2 = short.machine.takeFrame.2 ∧
      (past ≠ [] → whole.machine = short.machine) ∧
      ∀ n, (after? options program (start options m₀) (past ++ stretch ++ rest.take (n + 1))).map
          (fun t => (t.machine, t.picture)) =
        (after? options program (start options m₀) (past ++ cut.take (n + 1))).map
          (fun t => (t.machine, t.picture)) := by
  constructor
  · intro s f hpaused hreset
    exact ⟨undisturbed_advance options program hpaused hreset,
      reg_advance_of_paused options program hpaused hreset⟩
  · intro m m₀ past stretch rest cut s s₁ resume later hload hpast hpaused hpause hstretch hrest
      hresume hcut whole short
    have hwhole : whole = play options program (start options m₀) (past ++ stretch ++ rest) := by
      simp only [whole, run, hload, ↓reduceIte]
    have hshort : short = play options program (start options m₀) (past ++ cut) := by
      simp only [short, run, hload, ↓reduceIte]
    obtain ⟨hfits, rfl⟩ := Machine.load_eq_ok hload
    have hs : UpToDate options s.picture s.machine.raster := upToDate_after? hfits rfl hpast
    have hidled : Idled options s s₁ := hpause.idled hs hpaused hstretch
    obtain ⟨before, hbefore, hplay⟩ := play_append hpast
    obtain ⟨during, hduring, hplay'⟩ := play_append hstretch
    obtain ⟨⟨dirty, hresumed⟩, hexact⟩ :=
      play_resumed program hfits hs hpaused hidled hrest hresume hcut
    rw [List.append_assoc, hplay, hplay', hresumed] at hwhole
    rw [hplay] at hshort
    rw [hwhole, hshort]
    refine ⟨⟨before, during, _, hbefore, hduring, ?_, rfl⟩, rfl, rfl, ?_, fun n => ?_⟩
    · exact (List.append_assoc before during _).symm
    · intro hne
      have hsame := congrArg Playback.machine (hexact (clean_after? hne hpast))
      rw [hresumed] at hsame
      exact hsame
    · have hlater := after?_resumed program hfits hs hpaused hidled hrest hresume hcut n
      rw [List.append_assoc, after?_append, hpast, after?_append _ past, hpast]
      simp only [Option.bind_some]
      rw [after?_append, hstretch]
      exact hlater

/-- A program that counts in the register 1. -/
def countUp : Array UInt8 := #[0x71, 0x01, 0x12, 0x00]

/-- The key of code 4 goes down, and stays down. -/
def heldBefore : List Frame := [{ keys := [.q], steps := 0, ticks := 1 }]

/-- The session is paused; the pause key stays down for a frame. -/
def pausedWhile : List Frame :=
  [{ keys := [.q, .p], steps := 6, ticks := 1 }, { keys := [.q, .p], steps := 6, ticks := 1 },
    { keys := [.q], steps := 6, ticks := 1 }]

/-- The pause key goes down again, and stays down for a frame. -/
def resumedBehind : List Frame :=
  [{ keys := [.p], steps := 6, ticks := 1 }, { keys := [.p, .x], steps := 5, ticks := 1 },
    { keys := [.x], steps := 4, ticks := 0 }]

/-- A counting program that is paused comes to the same machine as without the pause,
and the key 4 that goes down in a paused frame is stored in the register it is awaited
for. -/
theorem countUp_paused :
    (run {} countUp true (heldBefore ++ pausedWhile ++ resumedBehind)
        (.boot (.ofSeed 1))).playback.machine =
      (run {} countUp true (heldBefore ++ letGo resumedBehind)
        (.boot (.ofSeed 1))).playback.machine ∧
    ((start {} { Machine.boot (.ofSeed 1) with state := .awaitingKey 2 }).advance {} countUp
      { keys := [.p, .q], steps := 6, ticks := 1 }).1.machine.reg 2 = 4 := by
  obtain ⟨hframe, hpause⟩ := pausing_is_transparent {} countUp
  constructor
  · obtain ⟨s, s₁, hpast, hpaused, hstretch, hreported, hkeys, hkeys₁⟩ :
        ∃ s s₁, after? {} countUp (start {} (.start (.fresh countUp) (.ofSeed 1))) heldBefore =
            some s ∧ s.paused = false ∧ after? {} countUp s pausedWhile = some s₁ ∧
          s.reported = .ofCodes [4] ∧ s.keysBefore = [.q] ∧ s₁.keysBefore = [.q] :=
      ⟨_, _, rfl, rfl, rfl, rfl, rfl, rfl⟩
    have hcalm : ∀ i ∈ inputs [.q] pausedWhile, i.resets = false ∧ i.keypad = .ofCodes [4] := by
      decide
    have hquiet : IsPause s.reported (inputs s.keysBefore pausedWhile) := by
      rw [hreported, hkeys]
      exact ⟨⟨_, _, rfl, rfl, by decide⟩, fun i hi => ⟨(hcalm i hi).1, (hcalm i hi).2⟩⟩
    have hcut : inputs s.keysBefore (letGo resumedBehind) =
        (inputOf s₁.keysBefore { keys := [.p], steps := 6, ticks := 1 }).withoutPause ::
          inputs [.p] resumedBehind.tail := inputs_letGo rfl (by rw [hkeys, hkeys₁])
    obtain ⟨-, -, -, hmachine, -⟩ := hpause (.boot (.ofSeed 1)) _ heldBefore pausedWhile
      resumedBehind (letGo resumedBehind) s s₁ _ _ (Machine.load_of_fits _ (by decide)) hpast
      hpaused hquiet hstretch rfl (by rw [hkeys₁]; rfl) hcut
    exact hmachine (by decide)
  · obtain ⟨-, hreg⟩ := hframe (start {} { Machine.boot (.ofSeed 1) with state := .awaitingKey 2 })
      { keys := [.p, .q], steps := 6, ticks := 1 } rfl rfl
    rw [hreg 2]
    decide

end Session

end Chip8
