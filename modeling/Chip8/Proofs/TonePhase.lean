import Mathlib.Algebra.Order.Ring.Nat
import Chip8.Tone

/-!
# The tone keeps its phase

The output is asked for in buffers, and whether the tone is on is looked at once for each
buffer.  However the frames are cut into buffers, the source is asked once for each frame, with
the gate of the buffer that the frame lies in, so the output is that of the gates frame by
frame.  The oscillator moves on in the same way whether its gate is open or not.  So a frame
with an open gate has the value that an oscillator which was never silent has there, whatever
the gates were before it.

* `fillBuffers_eq_repeatFrames` — the buffers are filled frame by frame, whatever the source;
* `Oscillator.getElem?_drawn` — the value of a frame is told by its gate and its number;
* `Oscillator.tone_keeps_phase` — the samples of each frame of the output, and that neither
  the other gates nor the cuts between the buffers have a part in them.
-/

namespace Chip8

namespace Gated

variable {σ α : Type} (next : Bool → σ → α × σ)

/-- The values of a source that is asked once for each gate. -/
def drawn : List Bool → σ → List α
  | [], _ => []
  | isOn :: gates, source => (next isOn source).1 :: drawn gates (next isOn source).2

/-- The source behind the last of its gates. -/
def behind (gates : List Bool) (source : σ) : σ :=
  gates.foldl (fun source isOn => (next isOn source).2) source

/-- One value is drawn for each gate. -/
theorem length_drawn (gates : List Bool) (source : σ) :
    (drawn next gates source).length = gates.length := by
  induction gates generalizing source with
  | nil => rfl
  | cons isOn gates ih => rw [drawn, List.length_cons, List.length_cons, ih]

/-- Values are drawn for one part of the gates, and then for the other from the source that
is left. -/
theorem drawn_append (gates more : List Bool) (source : σ) :
    drawn next (gates ++ more) source =
      drawn next gates source ++ drawn next more (behind next gates source) := by
  induction gates generalizing source with
  | nil => rfl
  | cons isOn gates ih =>
      rw [List.cons_append, drawn, drawn, ih, List.cons_append]
      rfl

end Gated

/-- A part of the output that is asked for at once: whether the tone is on, and how many
samples there are. -/
structure Buffer where
  isOn : Bool
  length : Nat
  deriving DecidableEq, Repr

/-- The gate of each frame of the output: that of the buffer in which the frame lies. -/
def frameGates (channels : Nat) (buffers : List Buffer) : List Bool :=
  buffers.flatMap fun b => List.replicate (b.length / channels) b.isOn

section Frames

variable {σ α β : Type} (convert : α → β) (next : Bool → σ → α × σ) {channels : Nat}

/-- The output of one source over buffers that are filled one after the other. -/
def fillBuffers (channels : Nat) : List Buffer → σ → List β
  | [], _ => []
  | b :: rest, source =>
      let (samples, source) := fillFrames convert (next b.isOn) channels b.length source
      samples ++ fillBuffers channels rest source

/-- The frames that repeat each of the values. -/
def repeatFrames (channels : Nat) (values : List α) : List β :=
  values.flatMap fun value => List.replicate channels (convert value)

theorem frameGates_cons (b : Buffer) (buffers : List Buffer) :
    frameGates channels (b :: buffers) =
      List.replicate (b.length / channels) b.isOn ++ frameGates channels buffers :=
  rfl

theorem repeatFrames_cons (value : α) (values : List α) :
    repeatFrames convert channels (value :: values) =
      List.replicate channels (convert value) ++ repeatFrames convert channels values :=
  rfl

/-- Each frame has one sample for each channel. -/
theorem length_repeatFrames (values : List α) :
    (repeatFrames convert channels values).length = values.length * channels := by
  induction values with
  | nil => exact (Nat.zero_mul channels).symm
  | cons value values ih =>
      rw [repeatFrames_cons, List.length_append, List.length_replicate, ih, List.length_cons,
        Nat.succ_mul, Nat.add_comm]

/-- All samples of a frame are the value that it repeats. -/
theorem getElem?_repeatFrames {k : Nat} (hk : k < channels) (values : List α) (f : Nat) :
    (repeatFrames convert channels values)[f * channels + k]? = values[f]?.map convert := by
  induction values generalizing f with
  | nil => rfl
  | cons value values ih =>
      rw [repeatFrames_cons]
      cases f with
      | zero =>
          rw [Nat.zero_mul, Nat.zero_add, List.getElem?_append_left (by simpa using hk),
            List.getElem?_replicate_of_lt hk]
          rfl
      | succ f =>
          have hplace : (f + 1) * channels + k = channels + (f * channels + k) := by
            rw [Nat.succ_mul]
            omega
          rw [hplace, List.getElem?_append_right (by simp), List.length_replicate,
            Nat.add_sub_cancel_left, ih]
          rfl

/-- One frame more in front takes one value more from the source. -/
theorem fillFrames_add (hchannels : 0 < channels) (draw : σ → α × σ) (length : Nat)
    (source : σ) :
    fillFrames convert draw channels (channels + length) source =
      (List.replicate channels (convert (draw source).1) ++
        (fillFrames convert draw channels length (draw source).2).1,
       (fillFrames convert draw channels length (draw source).2).2) := by
  have hmore : ¬ (channels + length = 0 ∨ channels = 0) := by omega
  rw [fillFrames, dif_neg hmore, Nat.add_sub_cancel_left,
    Nat.min_eq_left (Nat.le_add_right channels length)]

/-- A buffer of whole frames asks the source once for each of them. -/
theorem fillFrames_whole (hchannels : 0 < channels) (isOn : Bool) (count : Nat) (source : σ) :
    fillFrames convert (next isOn) channels (channels * count) source =
      (repeatFrames convert channels (Gated.drawn next (List.replicate count isOn) source),
       Gated.behind next (List.replicate count isOn) source) := by
  induction count generalizing source with
  | zero =>
      rw [Nat.mul_zero, fillFrames, dif_pos (Or.inl rfl)]
      rfl
  | succ count ih =>
      rw [Nat.mul_succ, Nat.add_comm, fillFrames_add convert hchannels, ih]
      rfl

/-- **The cuts do not matter.**  Buffers of whole frames are filled with one value of the
source for each frame, drawn with the gate of the frame. -/
theorem fillBuffers_eq_repeatFrames (hchannels : 0 < channels) {buffers : List Buffer}
    (hwhole : ∀ b ∈ buffers, channels ∣ b.length) (source : σ) :
    fillBuffers convert next channels buffers source =
      repeatFrames convert channels (Gated.drawn next (frameGates channels buffers) source) := by
  induction buffers generalizing source with
  | nil => rfl
  | cons b buffers ih =>
      obtain ⟨hb, hrest⟩ := List.forall_mem_cons.1 hwhole
      have hfill := fillFrames_whole convert next hchannels b.isOn (b.length / channels) source
      rw [Nat.mul_div_cancel' hb] at hfill
      rw [fillBuffers, hfill, frameGates_cons, Gated.drawn_append]
      dsimp only
      rw [ih hrest]
      exact List.flatMap_append.symm

/-- All the samples that are asked for lie in frames. -/
theorem length_frameGates {buffers : List Buffer} (hwhole : ∀ b ∈ buffers, channels ∣ b.length) :
    (frameGates channels buffers).length * channels = (buffers.map Buffer.length).sum := by
  induction buffers with
  | nil => exact Nat.zero_mul channels
  | cons b buffers ih =>
      obtain ⟨hb, hrest⟩ := List.forall_mem_cons.1 hwhole
      rw [frameGates_cons, List.length_append, List.length_replicate, Nat.add_mul,
        Nat.div_mul_cancel hb, ih hrest, List.map_cons, List.sum_cons]

end Frames

namespace Oscillator

/-- The oscillator after a number of calls with the tone on. -/
def afterCalls (o : Oscillator) : Nat → Oscillator
  | 0 => o
  | n + 1 => (next true (o.afterCalls n)).2

/-- The value that an oscillator of a rate, with the tone always on, gives on its call number
`f + 1`. -/
def steady (rate : Float32) (f : Nat) : Float32 :=
  (next true ((start rate).afterCalls f)).1

/-- The gate decides about the value, but not about the state behind it. -/
theorem next_eq (o : Oscillator) (isOn : Bool) :
    next isOn o = (if isOn then (next true o).1 else 0, (next true o).2) :=
  rfl

/-- An oscillator that has been called is one call further on. -/
theorem afterCalls_next (o : Oscillator) (isOn : Bool) (n : Nat) :
    (next isOn o).2.afterCalls n = o.afterCalls (n + 1) := by
  induction n with
  | zero => rw [next_eq, afterCalls, afterCalls, afterCalls]
  | succ n ih => rw [afterCalls, ih, ← afterCalls]

/-- The value drawn for a frame is told by its gate and its number.  By induction on the
gates: whatever the first gate was, the rest is drawn from the oscillator one call later. -/
theorem getElem?_drawn (o : Oscillator) (gates : List Bool) (f : Nat) :
    (Gated.drawn next gates o)[f]? =
      gates[f]?.map fun isOn => if isOn then (next true (o.afterCalls f)).1 else 0 := by
  induction gates generalizing o f with
  | nil => rfl
  | cons isOn gates ih =>
      cases f with
      | zero => rfl
      | succ f =>
          rw [Gated.drawn, List.getElem?_cons_succ, List.getElem?_cons_succ, ih, afterCalls_next]

section Output

variable {β : Type} (convert : Float32 → β) (rate : Float32) {channels : Nat}
  {buffers : List Buffer}

/-- A sample of the output, by the gate of its frame; none behind the last frame. -/
theorem getElem?_fillBuffers (hchannels : 0 < channels)
    (hwhole : ∀ b ∈ buffers, channels ∣ b.length) (f : Nat) {k : Nat} (hk : k < channels) :
    (fillBuffers convert next channels buffers (start rate))[f * channels + k]? =
      (frameGates channels buffers)[f]?.map fun isOn =>
        convert (if isOn then steady rate f else 0) := by
  rw [fillBuffers_eq_repeatFrames convert next hchannels hwhole, getElem?_repeatFrames convert hk,
    getElem?_drawn, Option.map_map]
  rfl

/-- **The tone keeps its phase.**  Fill any buffers of whole frames from one oscillator.  There
are as many samples as are asked for, in frames of one sample for each channel.  All samples of
a frame are the conversion of silence if the gate of its buffer is closed, and otherwise that
of the value which an oscillator that is always on gives for that frame.  So a frame is the
same in the output for any other buffers, if only its gate is. -/
theorem tone_keeps_phase (hchannels : 1 ≤ channels)
    (hwhole : ∀ b ∈ buffers, channels ∣ b.length) :
    (fillBuffers convert next channels buffers (start rate)).length =
      (buffers.map Buffer.length).sum ∧
    (frameGates channels buffers).length * channels = (buffers.map Buffer.length).sum ∧
    (∀ f isOn, (frameGates channels buffers)[f]? = some isOn → ∀ k < channels,
      (fillBuffers convert next channels buffers (start rate))[f * channels + k]? =
        some (convert (if isOn then steady rate f else 0))) ∧
    ∀ others : List Buffer, (∀ b ∈ others, channels ∣ b.length) →
      ∀ f, (frameGates channels others)[f]? = (frameGates channels buffers)[f]? →
        ∀ k < channels,
          (fillBuffers convert next channels others (start rate))[f * channels + k]? =
            (fillBuffers convert next channels buffers (start rate))[f * channels + k]? := by
  have hframes := length_frameGates hwhole
  refine ⟨?_, hframes, ?_, ?_⟩
  · rw [fillBuffers_eq_repeatFrames convert next hchannels hwhole, length_repeatFrames,
      Gated.length_drawn, hframes]
  · intro f isOn hgate k hk
    rw [getElem?_fillBuffers convert rate hchannels hwhole f hk, hgate]
    rfl
  · intro others hothers f hgate k hk
    rw [getElem?_fillBuffers convert rate hchannels hothers f hk, hgate,
      getElem?_fillBuffers convert rate hchannels hwhole f hk]

/-- Two channels, a tone that is broken off for one frame, and a tone that sets in one frame
late: the last of four frames is the same. -/
theorem brokenTone_in_phase :
    let convert := (SampleFormat.integer 16 true).convert
    let broken : List Buffer := [⟨true, 4⟩, ⟨false, 2⟩, ⟨true, 2⟩]
    let late : List Buffer := [⟨false, 2⟩, ⟨true, 6⟩]
    1 ≤ 2 ∧ (∀ b ∈ broken, 2 ∣ b.length) ∧ (∀ b ∈ late, 2 ∣ b.length) ∧
    (fillBuffers convert next 2 broken (start 48000)).length = 8 ∧
    (fillBuffers convert next 2 broken (start 48000))[5]? = some (convert 0) ∧
    (fillBuffers convert next 2 broken (start 48000))[7]? = some (convert (steady 48000 3)) ∧
    (fillBuffers convert next 2 late (start 48000))[7]? =
      (fillBuffers convert next 2 broken (start 48000))[7]? := by
  intro convert broken late
  have hbroken : ∀ b ∈ broken, 2 ∣ b.length := by decide
  have hlate : ∀ b ∈ late, 2 ∣ b.length := by decide
  obtain ⟨hlength, -, hsamples, hothers⟩ :=
    tone_keeps_phase convert 48000 (by decide : 1 ≤ 2) hbroken
  exact ⟨by decide, hbroken, hlate, hlength, hsamples 2 false rfl 1 (by decide),
    hsamples 3 true rfl 1 (by decide), hothers late hlate 3 rfl 1 (by decide)⟩

end Output

end Oscillator

end Chip8
