import Mathlib.Data.List.Forall2
import Mathlib.Data.Nat.Digits.Defs
import Chip8.Options.Reading

/-!
# The texts that are read as colours

A colour is written as six hexadecimal digits, with `#` or `0x` in front or neither.  Every
such text is read, as the number that its digits denote.  But the digits are read two at a
time, by a reader of integers that takes a plus sign in front, so a pair may also be a plus
sign and one digit.  There is no other text that is read.

* `HexDigit`, `IsColorText` — the digits in either case, and the texts that are meant;
* `PairReads`, `SpellsColor` — the pairs that are read, and the texts made up of them;
* `readChannel_eq_ok_iff`, `readColor_eq_ok_iff` — reading a pair and a colour;
* `SpellsColor.isColorText` — without a plus sign, a text that is read is as meant;
* `color_texts` — which texts are read, and which of them are as meant.
-/

namespace Chip8

/-- A character that is the hexadecimal digit of a value. -/
inductive HexDigit : Char → Nat → Prop
  | decimal {d : Nat} (h : d < 10) : HexDigit (Char.ofNat ('0'.toNat + d)) d
  | lower {d : Nat} (h : d < 6) : HexDigit (Char.ofNat ('a'.toNat + d)) (d + 10)
  | upper {d : Nat} (h : d < 6) : HexDigit (Char.ofNat ('A'.toNat + d)) (d + 10)

/-- What may stand in front of the digits of a colour. -/
def colorMarks : List (List Char) :=
  [[], ['#'], ['0', 'x']]

/-- A mark or none, and six hexadecimal digits that denote `n`. -/
def IsColorText (text : String) (n : Nat) : Prop :=
  ∃ mark ∈ colorMarks, ∃ cs ds, text.toList = mark ++ cs ∧ cs.length = 6 ∧
    List.Forall₂ HexDigit cs ds ∧ n = Nat.ofDigits 16 ds.reverse

/-- Two characters that are read as one part of a colour, and what they are read as. -/
inductive PairReads : Char → Char → Nat → Prop
  | digits {a b : Char} {d e : Nat} (ha : HexDigit a d) (hb : HexDigit b e) :
      PairReads a b (16 * d + e)
  | signed {b : Char} {e : Nat} (hb : HexDigit b e) : PairReads '+' b e

/-- A mark or none, and three pairs that are read as the parts of the colour `n`. -/
def SpellsColor (text : String) (n : Nat) : Prop :=
  ∃ mark ∈ colorMarks, ∃ r₁ r₀ g₁ g₀ b₁ b₀ r g b,
    text.toList = mark ++ [r₁, r₀, g₁, g₀, b₁, b₀] ∧
    PairReads r₁ r₀ r ∧ PairReads g₁ g₀ g ∧ PairReads b₁ b₀ b ∧
    n = 65536 * r + 256 * g + b

section Digits

variable {a b c : Char} {d n acc base limit : Nat} {cs : List Char} {e : NumeralError}

/-- A hexadecimal digit is less than sixteen. -/
theorem HexDigit.lt (h : HexDigit c d) : d < 16 := by
  cases h <;> omega

/-- The digits are ASCII, and none of them is a sign or part of a mark other than `0`. -/
theorem HexDigit.plain (h : HexDigit c d) : c.toNat < 128 ∧ c ≠ '+' ∧ c ≠ '#' ∧ c ≠ 'x' := by
  have hdecimal : ∀ d < 10, (Char.ofNat ('0'.toNat + d)).toNat < 128 ∧
      Char.ofNat ('0'.toNat + d) ∉ ['+', '#', 'x'] := by decide
  have hlower : ∀ d < 6, (Char.ofNat ('a'.toNat + d)).toNat < 128 ∧
      Char.ofNat ('a'.toNat + d) ∉ ['+', '#', 'x'] := by decide
  have hupper : ∀ d < 6, (Char.ofNat ('A'.toNat + d)).toNat < 128 ∧
      Char.ofNat ('A'.toNat + d) ∉ ['+', '#', 'x'] := by decide
  have hplain : c.toNat < 128 ∧ c ∉ ['+', '#', 'x'] := by
    cases h with
    | decimal h => exact hdecimal _ h
    | lower h => exact hlower _ h
    | upper h => exact hupper _ h
  simpa using hplain

/-- The digits of base 16 are the hexadecimal digits. -/
theorem digitIn_eq_some_iff : digitIn 16 c = some d ↔ HexDigit c d := by
  constructor
  · intro h
    obtain ⟨hvalue, hlt⟩ := Option.filter_eq_some_iff.1 h
    have hlt : d < 16 := of_decide_eq_true hlt
    have hchar {first : Char} (hle : first ≤ c) :
        Char.ofNat (first.toNat + (c.toNat - first.toNat)) = c := by
      have hle : first.toNat ≤ c.toNat := hle
      rw [Nat.add_sub_cancel' hle, Char.ofNat_toNat]
    unfold digitValue at hvalue
    split at hvalue
    · next hrange =>
        have hhigh : c.toNat ≤ 57 := hrange.2
        cases hvalue
        have hdigit := HexDigit.decimal (d := c.toNat - '0'.toNat)
          (by simp only [Char.reduceToNat]; omega)
        rwa [hchar hrange.1] at hdigit
    · split at hvalue
      · next hrange =>
          cases hvalue
          have hdigit := HexDigit.lower (d := c.toNat - 'a'.toNat) (by omega)
          rwa [hchar hrange.1] at hdigit
      · split at hvalue
        · next hrange =>
            cases hvalue
            have hdigit := HexDigit.upper (d := c.toNat - 'A'.toNat) (by omega)
            rwa [hchar hrange.1] at hdigit
        · cases hvalue
  · intro h
    have hdecimal : ∀ d < 10, digitIn 16 (Char.ofNat ('0'.toNat + d)) = some d := by decide
    have hlower : ∀ d < 6, digitIn 16 (Char.ofNat ('a'.toNat + d)) = some (d + 10) := by decide
    have hupper : ∀ d < 6, digitIn 16 (Char.ofNat ('A'.toNat + d)) = some (d + 10) := by decide
    cases h with
    | decimal h => exact hdecimal _ h
    | lower h => exact hlower _ h
    | upper h => exact hupper _ h

/-- A number is read digit by digit, each within the limit. -/
theorem appendDigits_cons_eq_ok_iff :
    appendDigits base limit e acc (c :: cs) = .ok n ↔
      ∃ d, digitIn base c = some d ∧ acc * base + d ≤ limit ∧
        appendDigits base limit e (acc * base + d) cs = .ok n := by
  rw [appendDigits]
  cases digitIn base c with
  | none => simp
  | some d => by_cases hle : acc * base + d ≤ limit <;> simp [hle]

/-- One pair is read if it is two digits, or a plus sign and one digit. -/
theorem readUnsigned_pair_iff : readUnsigned 16 255 [a, b] = .ok n ↔ PairReads a b n := by
  by_cases hplus : a = '+'
  · subst hplus
    have hread : readUnsigned 16 255 ['+', b] = appendDigits 16 255 .tooLarge 0 [b] := rfl
    rw [hread, appendDigits_cons_eq_ok_iff]
    constructor
    · rintro ⟨e, hdigit, -, hrest⟩
      cases hrest
      rw [Nat.zero_mul, Nat.zero_add]
      exact .signed (digitIn_eq_some_iff.1 hdigit)
    · intro h
      cases h with
      | digits ha => exact absurd rfl ha.plain.2.1
      | signed hb =>
          have hlt := hb.lt
          refine ⟨n, digitIn_eq_some_iff.2 hb, by omega, ?_⟩
          rw [Nat.zero_mul, Nat.zero_add]
          rfl
  · have hread : readUnsigned 16 255 [a, b] = appendDigits 16 255 .tooLarge 0 [a, b] := by
      unfold readUnsigned
      split <;> simp_all
    simp only [hread, appendDigits_cons_eq_ok_iff, digitIn_eq_some_iff]
    constructor
    · rintro ⟨d, ha, -, e, hb, -, hrest⟩
      cases hrest
      rw [Nat.zero_mul, Nat.zero_add, Nat.mul_comm]
      exact .digits ha hb
    · intro h
      cases h with
      | signed => exact absurd rfl hplus
      | @digits _ _ d e ha hb =>
          have hd := ha.lt
          have he := hb.lt
          refine ⟨d, ha, by omega, e, hb, by omega, ?_⟩
          rw [Nat.zero_mul, Nat.zero_add, Nat.mul_comm]
          rfl

/-- What a pair of characters reads as fits into a byte. -/
theorem PairReads.lt (h : PairReads a b n) : n < 256 := by
  cases h with
  | digits ha hb =>
      have hd := ha.lt
      have he := hb.lt
      omega
  | signed hb =>
      have he := hb.lt
      omega

/-- A pair is ASCII, and does not begin a mark. -/
theorem PairReads.plain (h : PairReads a b n) :
    a.toNat < 128 ∧ b.toNat < 128 ∧ a ≠ '#' ∧ b ≠ 'x' := by
  cases h with
  | digits ha hb => exact ⟨ha.plain.1, hb.plain.1, ha.plain.2.2.1, hb.plain.2.2.2⟩
  | signed hb => exact ⟨by decide, hb.plain.1, by decide, hb.plain.2.2.2⟩

/-- Without a plus sign, a pair that is read is two digits. -/
theorem PairReads.exists_digits (h : PairReads a b n) (ha : a ≠ '+') :
    ∃ d e, HexDigit a d ∧ HexDigit b e ∧ n = 16 * d + e := by
  cases h with
  | digits hd he => exact ⟨_, _, hd, he, rfl⟩
  | signed => exact absurd rfl ha

/-- A channel is read from two characters if and only if the grammar gives them a value. -/
theorem readChannel_eq_ok_iff {part : UInt8} :
    readChannel a b = .ok part ↔ PairReads a b part.toNat := by
  have hmap : readChannel a b = .ok part ↔
      ∃ n, readUnsigned 16 255 [a, b] = .ok n ∧ n.toUInt8 = part := by
    unfold readChannel
    cases readUnsigned 16 255 [a, b] <;> simp [Except.map]
  rw [hmap]
  constructor
  · rintro ⟨n, hread, rfl⟩
    have hpair := readUnsigned_pair_iff.1 hread
    have hn : n.toUInt8.toNat = n := UInt8.toNat_ofNat_of_lt' hpair.lt
    rwa [hn]
  · intro h
    exact ⟨part.toNat, readUnsigned_pair_iff.2 h, UInt8.ofNat_toNat⟩

end Digits

section Colors

variable {r₁ r₀ g₁ g₀ b₁ b₀ : Char} {text : String} {color : Color} {n : Nat}

/-- A colour as one number. -/
theorem Color.toNat_ofRgb (red green blue : UInt8) :
    (Color.ofRgb red green blue).toNat =
      65536 * red.toNat + 256 * green.toNat + blue.toNat := by
  have hred : red.toNat < 256 := red.toNat_lt
  have hgreen : green.toNat < 256 := green.toNat_lt
  have hblue : blue.toNat < 2 ^ 8 := blue.toNat_lt
  have hlow : green.toNat <<< 8 ||| blue.toNat = green.toNat <<< 8 + blue.toNat :=
    (Nat.shiftLeft_add_eq_or_of_lt hblue _).symm
  have hlt : green.toNat <<< 8 + blue.toNat < 2 ^ 16 := by
    rw [Nat.shiftLeft_eq]
    omega
  have hshift : red.toNat <<< 16 % 4294967296 = red.toNat <<< 16 ∧
      green.toNat <<< 8 % 4294967296 = green.toNat <<< 8 := by
    rw [Nat.shiftLeft_eq, Nat.shiftLeft_eq]
    omega
  calc (Color.ofRgb red green blue).toNat
      = red.toNat <<< 16 % 4294967296 ||| green.toNat <<< 8 % 4294967296 ||| blue.toNat := by
        simp [Color.ofRgb]
    _ = red.toNat <<< 16 ||| (green.toNat <<< 8 + blue.toNat) := by
        rw [hshift.1, hshift.2, Nat.or_assoc, hlow]
    _ = red.toNat <<< 16 + (green.toNat <<< 8 + blue.toNat) :=
        (Nat.shiftLeft_add_eq_or_of_lt hlt _).symm
    _ = 65536 * red.toNat + 256 * green.toNat + blue.toNat := by
        rw [Nat.shiftLeft_eq, Nat.shiftLeft_eq]
        omega

/-- Six characters are read if and only if each of the three channels is. -/
theorem readChannels_eq_ok_iff : readChannels r₁ r₀ g₁ g₀ b₁ b₀ = .ok color ↔
    ∃ red green blue, readChannel r₁ r₀ = .ok red ∧ readChannel g₁ g₀ = .ok green ∧
      readChannel b₁ b₀ = .ok blue ∧ color = .ofRgb red green blue := by
  unfold readChannels
  cases readChannel r₁ r₀ <;> cases readChannel g₁ g₀ <;> cases readChannel b₁ b₀ <;>
    simp [bind, Except.bind, pure, Except.pure, eq_comm]

/-- What a text spells fits into the 32 bits of a colour. -/
theorem SpellsColor.lt (h : SpellsColor text n) : n < 2 ^ 32 := by
  obtain ⟨_, -, _, _, _, _, _, _, r, g, b, -, hr, hg, hb, rfl⟩ := h
  have hr := hr.lt
  have hg := hg.lt
  have hb := hb.lt
  omega

/-- What stands in front of the digits of a colour is a mark or nothing. -/
theorem exists_colorMark (cs : List Char) : ∃ mark ∈ colorMarks, cs = mark ++ colorDigits cs := by
  unfold colorDigits
  split
  · exact ⟨['#'], by decide, rfl⟩
  · exact ⟨['0', 'x'], by decide, rfl⟩
  · exact ⟨[], by decide, rfl⟩

/-- One mark in front of the digits is dropped, and nothing more. -/
theorem colorDigits_of_plain {mark cs : List Char} {a b : Char} (hmark : mark ∈ colorMarks)
    (ha : a ≠ '#') (hb : b ≠ 'x') : colorDigits (mark ++ a :: b :: cs) = a :: b :: cs := by
  simp only [colorMarks, List.mem_cons, List.not_mem_nil, or_false] at hmark
  rcases hmark with rfl | rfl | rfl
  · rw [List.nil_append]
    unfold colorDigits
    split <;> simp_all
  · rfl
  · rfl

/-- **Reading a colour.** -/
theorem readColor_eq_ok_iff : readColor text = .ok color ↔ SpellsColor text color.toNat := by
  constructor
  · intro h
    obtain ⟨mark, hmark, htext⟩ := exists_colorMark text.toList
    unfold readColor at h
    split at h
    · next r₁ r₀ g₁ g₀ b₁ b₀ hdigits =>
        split at h
        · cases hchannels : readChannels r₁ r₀ g₁ g₀ b₁ b₀ with
          | error e =>
              rw [hchannels] at h
              cases h
          | ok found =>
              rw [hchannels] at h
              cases h
              obtain ⟨red, green, blue, hred, hgreen, hblue, rfl⟩ :=
                readChannels_eq_ok_iff.1 hchannels
              rw [hdigits] at htext
              exact ⟨mark, hmark, r₁, r₀, g₁, g₀, b₁, b₀, _, _, _, htext,
                readChannel_eq_ok_iff.1 hred, readChannel_eq_ok_iff.1 hgreen,
                readChannel_eq_ok_iff.1 hblue, Color.toNat_ofRgb _ _ _⟩
        · cases h
    · cases h
  · rintro ⟨mark, hmark, r₁, r₀, g₁, g₀, b₁, b₀, r, g, b, htext, hr, hg, hb, hcolor⟩
    have hdigits : colorDigits text.toList = [r₁, r₀, g₁, g₀, b₁, b₀] := by
      rw [htext]
      exact colorDigits_of_plain hmark hr.plain.2.2.1 hr.plain.2.2.2
    have hascii : [r₁, r₀, g₁, g₀, b₁, b₀].all (·.toNat < 128) = true := by
      simp [hr.plain, hg.plain, hb.plain]
    have hpart {a b : Char} {n : Nat} (h : PairReads a b n) :
        readChannel a b = .ok n.toUInt8 ∧ n.toUInt8.toNat = n := by
      have hn : n.toUInt8.toNat = n := UInt8.toNat_ofNat_of_lt' h.lt
      exact ⟨readChannel_eq_ok_iff.2 (by rwa [hn]), hn⟩
    have hchannels : readChannels r₁ r₀ g₁ g₀ b₁ b₀ = .ok color := by
      refine readChannels_eq_ok_iff.2
        ⟨_, _, _, (hpart hr).1, (hpart hg).1, (hpart hb).1, UInt32.toNat_inj.1 ?_⟩
      rw [hcolor, Color.toNat_ofRgb, (hpart hr).2, (hpart hg).2, (hpart hb).2]
    unfold readColor
    rw [hdigits]
    dsimp only
    rw [if_pos hascii, hchannels]
    rfl

/-- A text as it is meant has no plus sign, and is read as the number that it denotes. -/
theorem IsColorText.spells (h : IsColorText text n) : '+' ∉ text.toList ∧ SpellsColor text n := by
  obtain ⟨mark, hmark, cs, ds, htext, hlength, hdigits, rfl⟩ := h
  match cs, hlength with
  | [r₁, r₀, g₁, g₀, b₁, b₀], _ =>
      simp only [List.forall₂_cons_left_iff, List.forall₂_nil_left_iff] at hdigits
      obtain ⟨d₁, _, hr₁, ⟨d₀, _, hr₀, ⟨e₁, _, hg₁, ⟨e₀, _, hg₀, ⟨f₁, _, hb₁, ⟨f₀, _, hb₀,
        rfl, rfl⟩, rfl⟩, rfl⟩, rfl⟩, rfl⟩, rfl⟩ := hdigits
      constructor
      · have hnone : ∀ mark ∈ colorMarks, '+' ∉ mark := by decide
        simp [htext, hnone mark hmark, hr₁.plain.2.1.symm, hr₀.plain.2.1.symm,
          hg₁.plain.2.1.symm, hg₀.plain.2.1.symm, hb₁.plain.2.1.symm, hb₀.plain.2.1.symm]
      · refine ⟨mark, hmark, r₁, r₀, g₁, g₀, b₁, b₀, _, _, _, htext, .digits hr₁ hr₀,
          .digits hg₁ hg₀, .digits hb₁ hb₀, ?_⟩
        simp only [List.reverse_cons, List.reverse_nil, List.nil_append, List.cons_append,
          Nat.ofDigits_cons, Nat.ofDigits_nil]
        omega

/-- Without a plus sign, a text that is read is as meant. -/
theorem SpellsColor.isColorText (h : SpellsColor text n) (hplus : '+' ∉ text.toList) :
    IsColorText text n := by
  obtain ⟨mark, hmark, r₁, r₀, g₁, g₀, b₁, b₀, r, g, b, htext, hr, hg, hb, rfl⟩ := h
  simp only [htext, List.mem_append, List.mem_cons, List.not_mem_nil, or_false, not_or] at hplus
  obtain ⟨-, hr₁, -, hg₁, -, hb₁, -⟩ := hplus
  obtain ⟨d₁, d₀, hd₁, hd₀, rfl⟩ := hr.exists_digits (Ne.symm hr₁)
  obtain ⟨e₁, e₀, he₁, he₀, rfl⟩ := hg.exists_digits (Ne.symm hg₁)
  obtain ⟨f₁, f₀, hf₁, hf₀, rfl⟩ := hb.exists_digits (Ne.symm hb₁)
  refine ⟨mark, hmark, _, [d₁, d₀, e₁, e₀, f₁, f₀], htext, rfl,
    .cons hd₁ (.cons hd₀ (.cons he₁ (.cons he₀ (.cons hf₁ (.cons hf₀ .nil))))), ?_⟩
  simp only [List.reverse_cons, List.reverse_nil, List.nil_append, List.cons_append,
    Nat.ofDigits_cons, Nat.ofDigits_nil]
  omega

/-- **The texts that are read as colours.**  A text is read exactly if it is a mark or none
and three pairs, each of two hexadecimal digits or of a plus sign and one digit, and it is
read as the colour of these parts.  The texts that are meant, six digits with a mark or
none, are exactly those among them that have no plus sign, and they are read as the number
that the digits denote. -/
theorem color_texts (text : String) :
    (∀ color, readColor text = .ok color ↔ SpellsColor text color.toNat) ∧
    ∀ n, IsColorText text n ↔
      '+' ∉ text.toList ∧ ∃ color, readColor text = .ok color ∧ color.toNat = n := by
  refine ⟨fun _ => readColor_eq_ok_iff, fun n => ⟨?_, ?_⟩⟩
  · intro h
    obtain ⟨hplus, hspells⟩ := h.spells
    have hn : n.toUInt32.toNat = n := UInt32.toNat_ofNat_of_lt' hspells.lt
    exact ⟨hplus, n.toUInt32, readColor_eq_ok_iff.2 (by rwa [hn]), hn⟩
  · rintro ⟨hplus, color, hread, rfl⟩
    exact (readColor_eq_ok_iff.1 hread).isColorText hplus

/-- The text `+F0000` is read as a colour, though it has a plus sign in place of a digit. -/
theorem not_forall_color_text :
    ¬ ∀ text color, readColor text = .ok color ↔ IsColorText text color.toNat := by
  intro h
  have hread : readColor "+F0000" = .ok 0x0F0000 := by decide
  have hplus := ((h "+F0000" 0x0F0000).1 hread).spells.1
  exact hplus (by decide)

end Colors

end Chip8
