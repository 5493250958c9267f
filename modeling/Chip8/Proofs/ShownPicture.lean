import Chip8.Proofs.Effect
import Chip8.Proofs.SessionHistory

/-!
# Every picture shown is current

A session paints its picture anew only when the raster counts as changed.  That
is enough: whatever turns a pixel over or clears the raster marks it as changed,
and only painting takes the mark away.  So a picture without such a mark beside
it shows the raster as it is, and after each frame the picture does.

* `Machine.persistent_marked` — a run leaves the raster the same or marked as
  changed;
* `Shows`, `UpToDate` — a picture shows a raster, and shows it unless the raster
  is marked;
* `Session.shown_iff_shows` — the pictures of a session are those that show the
  raster of their frame.
-/

namespace Chip8

/-- No operation changes the picture without marking it. -/
theorem Machine.persistent_marked : Persistent fun m m' => m.raster.Marked m'.raster where
  refl _ := Or.inl rfl
  trans := Raster.Marked.trans
  bookkeeping _ _ _ _ := Or.inl rfl
  execute m i := (m.execute_effect i).raster

/-- The picture shows the raster: it has a cell for every pixel, coloured by it. -/
structure Shows (options : Options) (picture : Picture) (raster : Raster) : Prop where
  size : picture.size = 2048
  cell : ∀ x y, x < 64 → y < 32 → picture[y * 64 + x]? =
    some (if raster.pixel x y then options.foreground else options.background)

/-- The picture shows the raster unless that is marked as changed. -/
structure UpToDate (options : Options) (picture : Picture) (raster : Raster) : Prop where
  size : picture.size = 2048
  shows : raster.dirty = false → Shows options picture raster

section Pictures

variable {options : Options} {picture : Picture} {raster : Raster}

/-- A picture that has been painted shows the raster. -/
theorem shows_render (hsize : picture.size = 2048) :
    Shows options (raster.render options.foreground options.background picture) raster where
  size := by simp [Raster.render, hsize]
  cell x y hx hy := by
    have hcell : y * 64 + x < 2048 := by omega
    have hpixel : (cellAt x y).val = y * 64 + x := by
      simp only [cellAt]
      omega
    have hold : picture[y * 64 + x]? = some picture[y * 64 + x] :=
      Array.getElem?_eq_getElem (by omega)
    simp only [Raster.render, Array.getElem?_mapIdx, hold, Option.map_some, hcell, ↓reduceDIte,
      Raster.pixel, Fin.getElem_fin, hpixel]

/-- Only one picture shows a raster. -/
theorem Shows.unique {other : Picture} (h : Shows options picture raster)
    (hother : Shows options other raster) : picture = other := by
  apply Array.ext (h.size.trans hother.size.symm)
  intro i hi hi'
  have hsize := h.size
  have hcell := h.cell (i % 64) (i / 64) (by omega) (by omega)
  rw [← hother.cell (i % 64) (i / 64) (by omega) (by omega), Nat.div_add_mod' i 64] at hcell
  rw [Array.getElem?_eq_getElem hi, Array.getElem?_eq_getElem hi'] at hcell
  exact Option.some.inj hcell

/-- A picture that is up to date stays so when the raster changes and is marked. -/
theorem UpToDate.marked {raster' : Raster} (h : UpToDate options picture raster)
    (hmarked : raster.Marked raster') : UpToDate options picture raster' := by
  rcases hmarked with rfl | hdirty
  · exact h
  · refine ⟨h.size, fun hclean => ?_⟩
    rw [hdirty] at hclean
    cases hclean

end Pictures

namespace Session

variable {options : Options} {program : Array UInt8} {s s' : Session} {f : Frame}

/-- Painting makes a picture that is up to date show the raster. -/
theorem shows_repaint (h : UpToDate options s.picture s.machine.raster) :
    Shows options (s.repaint options).picture (s.repaint options).machine.raster := by
  rw [repaint_eq]
  show Shows options _ { s.machine.raster with dirty := false }
  cases hdirty : s.machine.raster.dirty with
  | true =>
      have hshows : Shows options
          (s.machine.raster.render options.foreground options.background s.picture)
          s.machine.raster := shows_render h.size
      exact ⟨hshows.size, hshows.cell⟩
  | false =>
      have hshows := h.shows hdirty
      exact ⟨hshows.size, hshows.cell⟩

/-- The empty picture is up to date with a raster that is marked. -/
theorem upToDate_start {m : Machine} (hdirty : m.raster.dirty = true) :
    UpToDate options (start options m).picture m.raster where
  size := by simp [start, Raster.width, Raster.height]
  shows hclean := by
    rw [hdirty] at hclean
    cases hclean

/-- A reset clears the raster and marks it. -/
theorem marked_restarted (program : Array UInt8) (s : Session) (f : Frame) :
    s.machine.raster.Marked (restarted program s f).raster := by
  unfold restarted
  split
  · exact Or.inr rfl
  · exact Or.inl rfl

/-- The beginning of a frame keeps the picture up to date. -/
theorem upToDate_beginFrame (hfits : program.size ≤ Memory.programCapacity)
    (hs : UpToDate options s.picture s.machine.raster)
    (h : s.beginFrame program f = (s', none)) :
    UpToDate options s'.picture s'.machine.raster := by
  obtain ⟨keypad, registers, state, hbegin, -⟩ := s.beginFrame_of_fits f hfits
  rw [hbegin] at h
  cases h
  exact hs.marked (marked_restarted program s f)

/-- Behind the rest of a frame the picture shows the raster. -/
theorem shows_endFrame (hs : UpToDate options s.picture s.machine.raster)
    (h : s.endFrame options f = (s', none)) : Shows options s'.picture s'.machine.raster := by
  obtain ⟨machine, hmarked, rfl⟩ :=
    endFrame_eq_ok Machine.persistent_marked (fun _ => Or.inl rfl) h
  exact shows_repaint (hs.marked hmarked)

/-- Behind a frame that went through the picture shows the raster. -/
theorem shows_advance (hfits : program.size ≤ Memory.programCapacity)
    (hs : UpToDate options s.picture s.machine.raster)
    (h : s.advance options program f = (s', none)) :
    Shows options s'.picture s'.machine.raster := by
  obtain ⟨middle, hbegin, hend⟩ := advance_eq_ok h
  exact shows_endFrame (upToDate_beginFrame hfits hs hbegin) hend

/-- After a frame or more the picture shows the raster. -/
theorem shows_after? {m : Machine} {frames : List Frame}
    (hfits : program.size ≤ Memory.programCapacity) (hdirty : m.raster.dirty = true)
    (hframes : frames ≠ []) (h : after? options program (start options m) frames = some s) :
    Shows options s.picture s.machine.raster := by
  have hrun : UpToDate options s.picture s.machine.raster ∧
      (frames.reverse = [] ∨ Shows options s.picture s.machine.raster) := by
    refine after?_induct (P := fun past s => UpToDate options s.picture s.machine.raster ∧
      (past = [] ∨ Shows options s.picture s.machine.raster)) ?_ ?_ h
    · exact ⟨upToDate_start hdirty, Or.inl rfl⟩
    · rintro past s f s' ⟨hs, -⟩ - hadvance
      have hshows := shows_advance hfits hs hadvance
      exact ⟨⟨hshows.size, fun _ => hshows⟩, Or.inr hshows⟩
  rcases hrun.2 with hnil | hshows
  · exact absurd (List.reverse_eq_nil_iff.1 hnil) hframes
  · exact hshows

/-- **Every picture shown is current.**  When the window opens, a session shows a
picture in each frame that it comes through, and this is the one that shows the
raster of the machine at the end of the frame: 2048 cells in the colours of the
pixels, row by row. -/
theorem shown_iff_shows {m m₀ : Machine} (hload : m.load program = .ok m₀)
    (frames : List Frame) (k : Nat) (picture : Picture) :
    (run options program true frames m).playback.shown[k]? = some picture ↔
      k < frames.length ∧ ∃ s,
        after? options program (start options m₀) (frames.take (k + 1)) = some s ∧
          Shows options picture s.machine.raster := by
  have hrun : (run options program true frames m).playback =
      play options program (start options m₀) frames := by
    simp only [run, hload, ↓reduceIte]
  rw [hrun, shown_getElem?]
  obtain ⟨hfits, rfl⟩ := Machine.load_eq_ok hload
  by_cases hk : k < frames.length
  · have hne : frames.take (k + 1) ≠ [] := by
      intro hnil
      have hlength := congrArg List.length hnil
      simp only [List.length_take, List.length_nil] at hlength
      omega
    simp only [hk, ↓reduceIte, true_and, Option.map_eq_some_iff]
    constructor
    · rintro ⟨s, hs, rfl⟩
      exact ⟨s, hs, shows_after? hfits rfl hne hs⟩
    · rintro ⟨s, hs, hshows⟩
      exact ⟨s, hs, (shows_after? hfits rfl hne hs).unique hshows⟩
  · simp only [hk, ↓reduceIte, reduceCtorEq, false_and]

/-- The session is paused in one frame and reset in the next. -/
def pausedReset : List Frame :=
  [{ keys := [.p], steps := 0, ticks := 0 }, { keys := [.backspace], steps := 0, ticks := 0 }]

/-- The picture after a reset while paused is shown, and is current. -/
theorem shown_after_pausedReset :
    ∃ m₀ s picture, (Machine.boot (.ofSeed 1)).load #[0x00, 0xE0] = .ok m₀ ∧
      (run {} #[0x00, 0xE0] true pausedReset (.boot (.ofSeed 1))).playback.shown[1]? =
        some picture ∧
      after? {} #[0x00, 0xE0] (start {} m₀) pausedReset = some s ∧
      Shows {} picture s.machine.raster := by
  have hfits : (#[0x00, 0xE0] : Array UInt8).size ≤ Memory.programCapacity := by decide
  have hload := (Machine.boot (.ofSeed 1)).load_of_fits hfits
  obtain ⟨s, hs⟩ : ∃ s, after? {} #[0x00, 0xE0]
      (start {} (.start (.fresh #[0x00, 0xE0]) (.ofSeed 1))) pausedReset = some s :=
    exists_after?_of_no_steps _ _ hfits (by decide)
  have hshows : Shows {} s.picture s.machine.raster :=
    shows_after? hfits rfl (by decide) hs
  have hshown := (shown_iff_shows hload pausedReset 1 s.picture).2 ⟨by decide, s, hs, hshows⟩
  exact ⟨_, s, s.picture, hload, hshown, hs, hshows⟩

end Session

end Chip8
