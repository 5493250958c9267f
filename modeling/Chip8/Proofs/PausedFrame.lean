import Chip8.Proofs.RasterMark
import Chip8.Proofs.SessionInput
import Chip8.Proofs.ShownPicture

/-!
# A paused frame

A pause keeps the machine from running, while the keys are still reported and the
picture is still shown.  So a paused frame can reach the keypad, and by it a register
that a key is awaited for; without a change of the keypad it takes nothing but the mark
of the raster.

* `Session.reg_deliverAll_between` — what reported keys do to the registers;
* `Session.advance_of_paused` — a paused frame;
* `Session.Idled`, `Session.Idled.after?` — a session that only paused frames have
  passed over.
-/

namespace Chip8

/-- The key with the lowest code that goes down from one state of the keypad to
another. -/
def KeyEvent.firstDown (before now : Keypad) : Option UInt8 :=
  Keypad.codes.find? fun code => now.isHeld code && !before.isHeld code

/-- Where no key has changed there is nothing to report. -/
theorem KeyEvent.between_self (k : Keypad) : between k k = [] := by
  simp [between, ofChange]

/-- What a program has computed is as it was, the registers and the state of the run
apart. -/
structure Machine.Undisturbed (m m' : Machine) : Prop where
  memory : m'.memory = m.memory
  pc : m'.pc = m.pc
  index : m'.index = m.index
  stack : m'.stack = m.stack
  timers : m'.timers = m.timers
  pixels : m'.raster.pixels = m.raster.pixels
  random : m'.random = m.random
  lastTrace : m'.lastTrace = m.lastTrace

namespace Session

section Delivery

variable {m m' : Machine}

/-- A key that is reported to a machine which does not wait for one changes its keypad
alone. -/
theorem deliver_of_not_awaiting (hstate : ∀ x, m.state ≠ .awaitingKey x) {event : KeyEvent}
    (h : deliver m event = .ok m') : ∃ keypad, m' = { m with keypad := keypad } := by
  cases event with
  | down code =>
      obtain ⟨keypad, -, ⟨x, hx, -⟩ | ⟨-, rfl⟩⟩ := Machine.keyDown_eq_ok h
      · exact absurd hx (hstate x)
      · exact ⟨keypad, rfl⟩
  | up code =>
      obtain ⟨keypad, -, rfl⟩ := Machine.keyUp_eq_ok h
      exact ⟨keypad, rfl⟩

/-- Keys that are reported to a machine which does not wait for one change its keypad
alone. -/
theorem deliverAll_of_not_awaiting (hstate : ∀ x, m.state ≠ .awaitingKey x)
    (events : List KeyEvent) : ∃ keypad, (deliverAll m events).1 = { m with keypad := keypad } := by
  induction events generalizing m with
  | nil => exact ⟨m.keypad, rfl⟩
  | cons event events ih =>
      unfold deliverAll
      cases hdeliver : deliver m event with
      | error e => exact ⟨m.keypad, rfl⟩
      | ok m' =>
          obtain ⟨keypad, rfl⟩ := deliver_of_not_awaiting hstate hdeliver
          exact ih hstate

/-- A key that goes down ends the wait for one, and its code is put into the register. -/
theorem deliver_down_of_awaiting {x : Reg} (hstate : m.state = .awaitingKey x) {code : UInt8}
    (hcode : code.toNat < 16) :
    ∃ m', deliver m (.down code) = .ok m' ∧ m'.registers = m.registers.set x code ∧
      m'.state = .running := by
  obtain ⟨keypad, hpress⟩ := m.keypad.exists_setKey true hcode
  refine ⟨{ m with
    keypad := keypad, registers := m.registers.set x code, state := .running }, ?_, rfl, rfl⟩
  simp only [deliver, Machine.keyDown, Keypad.press, hpress, hstate, Except.map]

/-- A key that goes up changes the keypad alone, whether one is awaited or not. -/
theorem deliver_up (m : Machine) {code : UInt8} (hcode : code.toNat < 16) :
    ∃ keypad, deliver m (.up code) = .ok { m with keypad := keypad } := by
  obtain ⟨keypad, hrelease⟩ := m.keypad.exists_setKey false hcode
  refine ⟨keypad, ?_⟩
  simp only [deliver, Machine.keyUp, Keypad.release, hrelease, Except.map]

/-- Of the keys reported to a machine that waits for one, the first that goes down is
stored.  It ends the wait, so that none of the later ones is. -/
theorem registers_deliverAll_of_awaiting {x : Reg} (hstate : m.state = .awaitingKey x)
    (before now : Keypad) {codes : List UInt8} (hcodes : ∀ c ∈ codes, c.toNat < 16) :
    (deliverAll m (codes.filterMap fun code =>
        KeyEvent.ofChange code (before.isHeld code) (now.isHeld code))).1.registers =
      match codes.find? fun code => now.isHeld code && !before.isHeld code with
      | some code => m.registers.set x code
      | none => m.registers := by
  induction codes generalizing m with
  | nil => rfl
  | cons code codes ih =>
      have hcode : code.toNat < 16 := hcodes code List.mem_cons_self
      have hrest : ∀ c ∈ codes, c.toNat < 16 := fun c hc => hcodes c (List.mem_cons_of_mem _ hc)
      rw [List.filterMap_cons, List.find?_cons]
      cases hbefore : before.isHeld code with
      | true =>
          cases hnow : now.isHeld code with
          | true => exact ih hstate hrest
          | false =>
              obtain ⟨keypad, hup⟩ := deliver_up m hcode
              have hevent : KeyEvent.ofChange code true false = some (.up code) := rfl
              simp only [hevent, deliverAll, hup]
              exact ih hstate hrest
      | false =>
          cases hnow : now.isHeld code with
          | true =>
              obtain ⟨m', hdown, hregisters, hrunning⟩ := deliver_down_of_awaiting hstate hcode
              have hstops : ∀ y, m'.state ≠ .awaitingKey y := by simp [hrunning]
              have hevent : KeyEvent.ofChange code false true = some (.down code) := rfl
              simp only [hevent, deliverAll, hdown]
              obtain ⟨keypad, hlater⟩ := deliverAll_of_not_awaiting hstops _
              rw [hlater]
              exact hregisters
          | false => exact ih hstate hrest

/-- Reported keys reach one register at most, the one that a key is awaited for. -/
theorem reg_deliverAll_between (m : Machine) (before now : Keypad) (y : Reg) :
    (deliverAll m (KeyEvent.between before now)).1.reg y =
      if m.state = .awaitingKey y then (KeyEvent.firstDown before now).getD (m.reg y)
      else m.reg y := by
  by_cases hwait : ∃ x, m.state = .awaitingKey x
  · obtain ⟨x, hx⟩ := hwait
    have hregisters : (deliverAll m (KeyEvent.between before now)).1.registers =
        match KeyEvent.firstDown before now with
        | some code => m.registers.set x code
        | none => m.registers :=
      registers_deliverAll_of_awaiting hx before now fun c hc => Keypad.mem_codes.1 hc
    rw [hx]
    simp only [Machine.reg, hregisters, RunState.awaitingKey.injEq]
    cases KeyEvent.firstDown before now with
    | none => simp
    | some code => simp [m.registers.get_set x y code]
  · have hstate : ∀ x, m.state ≠ .awaitingKey x := fun x hx => hwait ⟨x, hx⟩
    obtain ⟨keypad, hdeliver⟩ := deliverAll_of_not_awaiting hstate (KeyEvent.between before now)
    rw [hdeliver, if_neg (hstate y)]
    rfl

end Delivery

variable {options : Options} {program : Array UInt8} {s s' : Session} {f : Frame}

/-- A paused frame without a reset reports the keys and shows the picture. -/
theorem advance_of_paused (options : Options) (program : Array UInt8)
    (hpaused : (s.paused ^^ s.goesDown f .p) = true) (hreset : s.goesDown f .backspace = false) :
    s.advance options program f =
      ({ s with
          machine := (deliverAll s.machine (KeyEvent.between s.reported (keypadOf f))).1
          paused := true
          reported := keypadOf f
          keysBefore := f.keys }.repaint options,
        if f.windowWorks then none else some (.window .notUpdated)) := by
  obtain ⟨keypad, registers, state, hdeliver, -⟩ :=
    deliverAll_between s.reported (keypadOf f) s.machine
  have hbegin : s.beginFrame program f = ({ s with
      machine := (deliverAll s.machine (KeyEvent.between s.reported (keypadOf f))).1
      paused := true
      reported := keypadOf f
      keysBefore := f.keys }, none) := by
    have hstays : { s with paused := true }.resetOnKey program f =
        .ok { s with paused := true } := if_neg (by simpa [goesDown] using hreset)
    simp only [beginFrame, togglePause_eq, hpaused, hstays, reportKeys, hdeliver,
      Option.map_none]
  unfold advance
  rw [hbegin]
  exact endFrame_eq options _ f

/-- What a paused frame leaves of the machine. -/
theorem undisturbed_advance (options : Options) (program : Array UInt8)
    (hpaused : (s.paused ^^ s.goesDown f .p) = true) (hreset : s.goesDown f .backspace = false) :
    s.machine.Undisturbed (s.advance options program f).1.machine := by
  obtain ⟨keypad, registers, state, hdeliver, -⟩ :=
    deliverAll_between s.reported (keypadOf f) s.machine
  rw [advance_of_paused options program hpaused hreset, repaint_eq, hdeliver]
  exact ⟨rfl, rfl, rfl, rfl, rfl, rfl, rfl, rfl⟩

/-- What a paused frame leaves in the registers. -/
theorem reg_advance_of_paused (options : Options) (program : Array UInt8)
    (hpaused : (s.paused ^^ s.goesDown f .p) = true) (hreset : s.goesDown f .backspace = false)
    (y : Reg) :
    (s.advance options program f).1.machine.reg y =
      if s.machine.state = .awaitingKey y then
        (KeyEvent.firstDown s.reported (keypadOf f)).getD (s.machine.reg y)
      else s.machine.reg y := by
  rw [advance_of_paused options program hpaused hreset, repaint_eq]
  exact reg_deliverAll_between s.machine s.reported (keypadOf f) y

/-- Paused frames have passed over the first session, without a change of the keypad. -/
structure Idled (options : Options) (s s' : Session) : Prop where
  machine : s'.machine = s.machine.withMark false
  paused : s'.paused = true
  reported : s'.reported = s.reported
  picture : UpToDate options s'.picture s'.machine.raster

/-- What a paused frame reads in which nothing is asked of the machine. -/
structure Input.Calm (i : Input) (keypad : Keypad) : Prop where
  resets : i.resets = false
  keypad : i.keypad = keypad

/-- A paused frame without a reset or a change of the keys takes the mark away and changes
nothing else. -/
theorem idled_advance (hs : UpToDate options s.picture s.machine.raster)
    (hpaused : (s.paused ^^ s.goesDown f .p) = true)
    (hcalm : (inputOf s.keysBefore f).Calm s.reported)
    (h : s.advance options program f = (s', none)) :
    Idled options s s' ∧ s'.keysBefore = f.keys := by
  have hkeypad : keypadOf f = s.reported := hcalm.keypad
  rw [advance_of_paused options program hpaused hcalm.resets, hkeypad,
    KeyEvent.between_self] at h
  obtain rfl := (Prod.mk.inj h).1
  have hshows := shows_repaint (s := { s with
    machine := (deliverAll s.machine []).1
    paused := true
    reported := s.reported
    keysBefore := f.keys }) hs
  refine ⟨⟨?_, ?_, ?_, hshows.size, fun _ => hshows⟩, ?_⟩
  · rw [repaint_eq]
    rfl
  · rw [repaint_eq]
  · rw [repaint_eq]
  · rw [repaint_eq]

/-- What two stretches have passed over is what both have. -/
theorem Idled.trans {t u : Session} (hst : Idled options s t) (htu : Idled options t u) :
    Idled options s u where
  machine := by rw [htu.machine, hst.machine, Machine.withMark_withMark]
  paused := htu.paused
  reported := htu.reported.trans hst.reported
  picture := htu.picture

/-- Where there was no mark, the machine is the same. -/
theorem Idled.machine_of_clean (h : Idled options s s') (hclean : s.machine.raster.dirty = false) :
    s'.machine = s.machine := by
  rw [h.machine, ← hclean, Machine.withMark_self]

/-- However many frames pass while the session stays paused, they pass over it. -/
theorem Idled.after? {t : Session} {frames : List Frame} (ht : Idled options s t)
    (hcalm : ∀ i ∈ inputs t.keysBefore frames, i.pauses = false ∧ i.Calm s.reported)
    (h : after? options program t frames = some s') : Idled options s s' := by
  induction frames generalizing t with
  | nil =>
      cases h
      exact ht
  | cons f frames ih =>
      obtain ⟨-, middle, hadvance, hrest⟩ := after?_cons_eq_some.1 h
      obtain ⟨hpauses, hfirst⟩ := hcalm _ List.mem_cons_self
      have hpaused : (t.paused ^^ t.goesDown f .p) = true := by
        have hstays : t.goesDown f .p = false := hpauses
        rw [ht.paused, hstays]
        rfl
      rw [← ht.reported] at hfirst
      obtain ⟨hidled, hkeys⟩ := idled_advance ht.picture hpaused hfirst hadvance
      refine ih (ht.trans hidled) ?_ hrest
      intro i hi
      rw [hkeys] at hi
      exact hcalm i (List.mem_cons_of_mem _ hi)

end Session

end Chip8
