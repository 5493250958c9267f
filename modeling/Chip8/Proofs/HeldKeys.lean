import Chip8.Proofs.Effect
import Chip8.Proofs.SessionHistory

/-!
# The keys that the machine holds

A session tells the machine only which keys have changed since the frame before.
A reset makes the machine forget its keys, while the session still takes them for
reported, so that a key which stays down over a reset is not held any more until
it has been released (`Session.Forgotten`).  That is the only way in which the
host and the machine come to differ.

* `HeldKeys` — what the session and the machine know of the keys after some
  frames, and `HeldKeys.beginFrame`, `HeldKeys.endFrame`, how a frame goes on
  with it;
* `Session.keypad_after_report` — the keys that the machine holds when those of
  a frame have been reported;
* `Session.reset_loses_key` — a key that is down and not held.
-/

namespace Chip8

/-- Every host key of the keypad has one of the sixteen codes. -/
theorem HostKey.code?_lt {key : HostKey} {code : UInt8} (h : key.code? = some code) :
    code.toNat < 16 := by
  unfold code? at h
  split at h <;> cases h <;> decide

/-- What a machine does by itself leaves its keypad alone. -/
theorem Machine.persistent_keypad : Persistent fun m m' => m'.keypad = m.keypad where
  refl _ := rfl
  trans hab hbc := hbc.trans hab
  bookkeeping _ _ _ _ := rfl
  execute m i := (m.execute_effect i).keypad

/-- Some key that is down stands for the code. -/
def Covers (keys : List HostKey) (code : UInt8) : Prop :=
  ∃ key ∈ keys, key.code? = some code

namespace Session

/-- The keypad of a frame holds the codes that its host keys cover. -/
theorem isHeld_keypadOf {f : Frame} {code : UInt8} (hcode : code.toNat < 16) :
    (keypadOf f).isHeld code = true ↔ Covers f.keys code := by
  unfold keypadOf
  rw [Keypad.isHeld_ofCodes hcode, List.any_eq_true]
  simp only [List.mem_filterMap, beq_iff_eq]
  constructor
  · rintro ⟨c, ⟨key, hkey, hc⟩, hmod⟩
    rw [Nat.mod_eq_of_lt (HostKey.code?_lt hc)] at hmod
    exact ⟨key, hkey, hc.trans (congrArg some (UInt8.toNat_inj.1 hmod))⟩
  · rintro ⟨key, hkey, hc⟩
    exact ⟨code, ⟨key, hkey, hc⟩, Nat.mod_eq_of_lt hcode⟩

/-- The host keys held in the latest of some frames. -/
def latestKeys : List Frame → List HostKey
  | [] => []
  | f :: _ => f.keys

/-- The key with this code has stayed down since a reset.  The latest frame comes
first. -/
inductive Forgotten (code : UInt8) : List Frame → Prop where
  /-- The reset key goes down while the key stays down. -/
  | reset {f : Frame} {past : List Frame} (hbefore : Covers (latestKeys past) code)
      (hnow : Covers f.keys code) (hup : .backspace ∉ latestKeys past)
      (hdown : .backspace ∈ f.keys) : Forgotten code (f :: past)
  /-- The key stays down. -/
  | still {f : Frame} {past : List Frame} (hpast : Forgotten code past)
      (hnow : Covers f.keys code) : Forgotten code (f :: past)

/-- A key that is forgotten is down on the host. -/
theorem Forgotten.covers {code : UInt8} {past : List Frame} (h : Forgotten code past) :
    Covers (latestKeys past) code := by
  cases h with
  | reset hbefore hnow => exact hnow
  | still hpast hnow => exact hnow

/-- When a frame leaves a key forgotten: it is down in two frames running, and it was
forgotten before or the reset key goes down. -/
theorem forgotten_cons_iff {code : UInt8} {f : Frame} {past : List Frame} :
    Forgotten code (f :: past) ↔ Covers f.keys code ∧ Covers (latestKeys past) code ∧
      (Forgotten code past ∨ .backspace ∈ f.keys ∧ .backspace ∉ latestKeys past) := by
  constructor
  · intro h
    cases h with
    | reset hbefore hnow hup hdown => exact ⟨hnow, hbefore, Or.inr ⟨hdown, hup⟩⟩
    | still hpast hnow => exact ⟨hnow, hpast.covers, Or.inl hpast⟩
  · rintro ⟨hnow, hbefore, hpast | ⟨hdown, hup⟩⟩
    · exact .still hpast hnow
    · exact .reset hbefore hnow hup hdown

/-- What is known of the keys after some frames, the latest first: the session
remembers those of the latest frame, and the machine holds them except for the
forgotten ones. -/
structure HeldKeys (past : List Frame) (s : Session) : Prop where
  before : s.keysBefore = latestKeys past
  reported : ∀ c : UInt8, c.toNat < 16 →
    (s.reported.isHeld c = true ↔ Covers (latestKeys past) c)
  held : ∀ c : UInt8, c.toNat < 16 →
    (s.machine.keypad.isHeld c = true ↔ Covers (latestKeys past) c ∧ ¬ Forgotten c past)

/-- No host key covers no code. -/
theorem not_covers_nil (code : UInt8) : ¬ Covers [] code := by
  rintro ⟨key, hkey, -⟩
  cases hkey

/-- Before the first frame no key is held and none is forgotten. -/
theorem heldKeys_start (options : Options) {m : Machine} (hkeypad : m.keypad = .idle) :
    HeldKeys [] (start options m) where
  before := rfl
  reported c _ := by
    simp [start, latestKeys, not_covers_nil]
  held c _ := by
    simp [start, hkeypad, latestKeys, not_covers_nil]

namespace HeldKeys

variable {options : Options} {program : Array UInt8} {past : List Frame} {s s' : Session}

/-- The reset key goes down in a frame if it is held there and was not held in the frame
before. -/
theorem goesDown_backspace (hs : HeldKeys past s) (f : Frame) :
    s.goesDown f .backspace = true ↔ .backspace ∈ f.keys ∧ .backspace ∉ latestKeys past := by
  unfold goesDown
  rw [hs.before]
  simp

/-- The keys that the machine holds when those of a frame are about to be
reported: none after a reset. -/
theorem held_restarted (hs : HeldKeys past s) (program : Array UInt8) (f : Frame) {c : UInt8}
    (hc : c.toNat < 16) :
    (restarted program s f).keypad.isHeld c = true ↔
      (Covers (latestKeys past) c ∧ ¬ Forgotten c past) ∧
        ¬ (.backspace ∈ f.keys ∧ .backspace ∉ latestKeys past) := by
  rw [← hs.held c hc, ← hs.goesDown_backspace f]
  unfold restarted
  split
  · next hdown => simp [hdown, Machine.start]
  · next hdown => simp [hdown]

/-- The beginning of a frame reports its keys, which keeps up what is known of them. -/
theorem beginFrame (hs : HeldKeys past s) (f : Frame)
    (hfits : program.size ≤ Memory.programCapacity) :
    ∃ s', s.beginFrame program f = (s', none) ∧ HeldKeys (f :: past) s' := by
  obtain ⟨keypad, registers, state, hbegin, hheld⟩ := s.beginFrame_of_fits f hfits
  refine ⟨_, hbegin, rfl, fun c hc => isHeld_keypadOf hc, ?_⟩
  intro c hc
  have hbefore := hs.reported c hc
  have hnow : (keypadOf f).isHeld c = true ↔ Covers f.keys c := isHeld_keypadOf hc
  have hrestarted := hs.held_restarted program f hc
  show keypad.isHeld c = true ↔ Covers f.keys c ∧ ¬ Forgotten c (f :: past)
  rw [hheld c hc]
  rw [forgotten_cons_iff]
  by_cases hsame : s.reported.isHeld c = (keypadOf f).isHeld c
  · -- Nothing is reported of the key, so the machine has it as the reset left it.
    have hkeys : Covers (latestKeys past) c ↔ Covers f.keys c := by
      rw [← hbefore, ← hnow, hsame]
    rw [if_neg (not_not_intro hsame), hrestarted, hkeys]
    grind
  · have hkeys : ¬ (Covers (latestKeys past) c ↔ Covers f.keys c) := by
      rw [← hbefore, ← hnow, ← Bool.eq_iff_iff]
      exact hsame
    rw [if_pos hsame, hnow]
    grind

/-- The rest of a frame changes nothing of the keys. -/
theorem endFrame (hs : HeldKeys past s) {f : Frame} (h : s.endFrame options f = (s', none)) :
    HeldKeys past s' := by
  obtain ⟨machine, hkeypad, rfl⟩ := endFrame_eq_ok Machine.persistent_keypad (fun _ => rfl) h
  rw [repaint_eq]
  refine ⟨hs.before, hs.reported, ?_⟩
  intro c hc
  show machine.keypad.isHeld c = true ↔ _
  rw [hkeypad]
  exact hs.held c hc

/-- A frame keeps up what is known of the keys. -/
theorem advance (hs : HeldKeys past s) {f : Frame} (hfits : program.size ≤ Memory.programCapacity)
    (h : s.advance options program f = (s', none)) : HeldKeys (f :: past) s' := by
  obtain ⟨middle, hbegin, hend⟩ := advance_eq_ok h
  obtain ⟨reached, hreached, hheld⟩ := hs.beginFrame f hfits
  rw [hbegin] at hreached
  cases hreached
  exact hheld.endFrame hend

/-- So do any number of frames, from the start of a session on. -/
theorem after? {m : Machine} {frames : List Frame} (hkeypad : m.keypad = .idle)
    (hfits : program.size ≤ Memory.programCapacity)
    (h : after? options program (start options m) frames = some s) :
    HeldKeys frames.reverse s :=
  after?_induct (heldKeys_start options hkeypad)
    (fun _ _ _ _ hs _ hadvance => hs.advance hfits hadvance) h

end HeldKeys

variable {options : Options} {program : Array UInt8} {m m₀ : Machine} {past : List Frame}
  {s : Session}

/-- **The keys after a report.**  In every frame of a session the report of the
keys goes through.  The machine then holds the keys that are down on the host,
except for those that have stayed down since a reset; on these the two differ. -/
theorem keypad_after_report (hload : m.load program = .ok m₀)
    (hpast : after? options program (start options m₀) past = some s) (f : Frame) :
    ∃ s', s.beginFrame program f = (s', none) ∧ ∀ c : UInt8, c.toNat < 16 →
      (s'.machine.keypad.isHeld c = true ↔
        Covers f.keys c ∧ ¬ Forgotten c (f :: past.reverse)) ∧
      ((s'.machine.keypad.isHeld c = true ↔ Covers f.keys c) ↔
        ¬ Forgotten c (f :: past.reverse)) := by
  obtain ⟨hfits, rfl⟩ := Machine.load_eq_ok hload
  have hs : HeldKeys past.reverse s := HeldKeys.after? rfl hfits hpast
  obtain ⟨s', hbegin, hheld⟩ := hs.beginFrame f hfits
  refine ⟨s', hbegin, fun c hc => ?_⟩
  have hkey : s'.machine.keypad.isHeld c = true ↔
      Covers f.keys c ∧ ¬ Forgotten c (f :: past.reverse) := hheld.held c hc
  have hcovers : Forgotten c (f :: past.reverse) → Covers f.keys c := Forgotten.covers
  exact ⟨hkey, by grind⟩

/-- A program that jumps to its own start for ever. -/
def idleLoop : Array UInt8 := #[0x12, 0x00]

/-- The key of code 4 goes down. -/
def keyDownFrame : Frame := { keys := [.q], steps := 0, ticks := 0 }

/-- It stays down while the reset key goes down. -/
def resetFrame : Frame := { keys := [.q, .backspace], steps := 0, ticks := 0 }

/-- The session goes through the frame in which the key goes down. -/
theorem exists_session_keyDownFrame :
    ∃ s, after? {} idleLoop (start {} (.start (.fresh idleLoop) (.ofSeed 1))) [keyDownFrame] =
      some s :=
  exists_after?_of_no_steps _ _ (by decide) (by decide)

/-- The key is forgotten when the reset key goes down while it stays down. -/
theorem forgotten_resetFrame : Forgotten 0x4 [resetFrame, keyDownFrame] :=
  .reset ⟨.q, by decide, rfl⟩ ⟨.q, by decide, rfl⟩ (by decide) (by decide)

/-- A key that stays down while the reset key goes down is not held afterwards. -/
theorem reset_loses_key :
    ∃ m₀ s s', (Machine.boot (.ofSeed 1)).load idleLoop = .ok m₀ ∧
      after? {} idleLoop (start {} m₀) [keyDownFrame] = some s ∧
      s.beginFrame idleLoop resetFrame = (s', none) ∧
      Covers resetFrame.keys 0x4 ∧ s'.machine.keypad.isHeld 0x4 = false := by
  have hload : (Machine.boot (.ofSeed 1)).load idleLoop =
      .ok (.start (.fresh idleLoop) (.ofSeed 1)) := Machine.load_of_fits _ (by decide)
  obtain ⟨s, hs⟩ := exists_session_keyDownFrame
  obtain ⟨s', hbegin, hheld⟩ := keypad_after_report hload hs resetFrame
  refine ⟨_, s, s', hload, hs, hbegin, forgotten_resetFrame.covers, ?_⟩
  rw [← Bool.not_eq_true, (hheld 0x4 (by decide)).1]
  exact fun h => h.2 forgotten_resetFrame

/-- The host and the machine do not always agree. -/
theorem not_forall_keypad_agrees :
    ¬ ∀ (options : Options) (program : Array UInt8) (m m₀ : Machine) (past : List Frame)
        (s : Session) (f : Frame), m.load program = .ok m₀ →
      after? options program (start options m₀) past = some s → ends f = false →
      ∃ s', s.beginFrame program f = (s', none) ∧ ∀ c : UInt8, c.toNat < 16 →
        (s'.machine.keypad.isHeld c = true ↔ Covers f.keys c) := by
  intro h
  have hfits : idleLoop.size ≤ Memory.programCapacity := by decide
  obtain ⟨s, hs⟩ := exists_session_keyDownFrame
  obtain ⟨s', hbegin, hagree⟩ := h {} idleLoop (.boot (.ofSeed 1)) _ [keyDownFrame] s resetFrame
    (Machine.load_of_fits _ hfits) hs rfl
  obtain ⟨reached, hreached, hkeys⟩ := (HeldKeys.after? rfl hfits hs).beginFrame resetFrame hfits
  rw [hbegin] at hreached
  cases hreached
  have hheld := (hagree 0x4 (by decide)).2 forgotten_resetFrame.covers
  exact ((hkeys.held 0x4 (by decide)).1 hheld).2 forgotten_resetFrame

end Session

end Chip8
