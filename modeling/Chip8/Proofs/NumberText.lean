import Mathlib.Algebra.Group.Nat.Defs
import Chip8.Text.Hex
import Chip8.Text.Numeral

/-!
# Numbers in texts

A report or a listing is put together from fixed words and numbers.  A number written in
hexadecimal can be read back, whatever least width it was given, and so can one in decimal,
so no two numbers look the same.  Where a number ends can be told from the text behind it, if
that does not go on with a digit, or from the number of digits, if the number has no more than
its least width.

* `hexValue_hexDigits`, `hexDigits_injective` — hexadecimal digits read back;
* `length_hexDigits`, `isSome_digitIn_of_mem_hexDigits` — how many there are, and which;
* `toList_repr_injective`, `isDigit_of_mem_repr` — the same of decimal digits;
* `append_inj_of_stop` — a text of one kind of characters in front of another character.
-/

namespace Chip8

/-- The number that hexadecimal digits denote, the most significant first. -/
def hexValue (cs : List Char) : Nat :=
  cs.foldl (fun n c => 16 * n + (digitValue c).getD 0) 0

section Hexadecimal

variable {width n : Nat}

/-- The value of a digit can be read off it in upper case. -/
theorem digitValue_toUpper_digitChar :
    ∀ d < 16, digitValue (Nat.digitChar d).toUpper = some d := by
  decide

/-- One digit more at the end multiplies the value by sixteen and is added to it. -/
theorem hexValue_append (cs : List Char) (c : Char) :
    hexValue (cs ++ [c]) = 16 * hexValue cs + (digitValue c).getD 0 := by
  simp only [hexValue, List.foldl_append, List.foldl_cons, List.foldl_nil]

/-- Zeros in front do not change the value. -/
theorem hexValue_zeros (k : Nat) (cs : List Char) :
    hexValue (List.replicate k '0' ++ cs) = hexValue cs := by
  have hzero : (digitValue '0').getD 0 = 0 := by decide
  induction k with
  | zero => rfl
  | succ k ih =>
      rw [List.replicate_succ, List.cons_append, ← ih]
      simp only [hexValue, List.foldl_cons, hzero]

/-- The digits of a number have its value. -/
theorem hexValue_toDigits (n : Nat) : hexValue ((Nat.toDigits 16 n).map Char.toUpper) = n := by
  induction n using Nat.strongRecOn with
  | ind n ih =>
      rw [Nat.toDigits_eq_if (by decide)]
      split
      · next hlt =>
          have hdigit := digitValue_toUpper_digitChar n hlt
          simp only [List.map_cons, List.map_nil, hexValue, List.foldl_cons, List.foldl_nil, hdigit]
          exact Nat.zero_add n
      · next hge =>
          have hdigit := digitValue_toUpper_digitChar (n % 16) (Nat.mod_lt _ (by decide))
          rw [List.map_append, List.map_singleton, hexValue_append, ih (n / 16) (by omega), hdigit]
          exact Nat.div_add_mod n 16

/-- Hexadecimal digits denote the number that they were made from. -/
theorem hexValue_hexDigits (width n : Nat) : hexValue (hexDigits width n) = n := by
  rw [hexDigits, List.leftpad, hexValue_zeros, hexValue_toDigits]

/-- Numbers of one width with the same digits are equal. -/
theorem hexDigits_injective {k : Nat} (h : hexDigits width n = hexDigits width k) : n = k := by
  rw [← hexValue_hexDigits width n, h, hexValue_hexDigits]

/-- Numbers of one width with the same text are equal. -/
theorem hex_injective {k : Nat} (h : hex width n = hex width k) : n = k :=
  hexDigits_injective (String.ofList_injective h)

/-- Numbers of one width with the same text are equal, marked as hexadecimal or not. -/
theorem hex0x_injective {k : Nat} (h : hex0x width n = hex0x width k) : n = k :=
  hex_injective ((String.append_right_inj "0x").1 h)

/-- A number that fits the least width has exactly so many digits. -/
theorem length_hexDigits (hpos : 0 < width) (hlt : n < 16 ^ width) :
    (hexDigits width n).length = width := by
  have hle := (Nat.length_toDigits_le_iff (by decide) hpos).2 hlt
  rw [hexDigits, List.length_leftpad, List.length_map]
  exact Nat.max_eq_left hle

/-- The digits of a number are digits, in upper case as well. -/
theorem isSome_digitIn_of_mem_toDigits {c : Char}
    (h : c ∈ (Nat.toDigits 16 n).map Char.toUpper) : (digitIn 16 c).isSome = true := by
  have hdigits : ∀ d < 16, (digitIn 16 (Nat.digitChar d).toUpper).isSome = true := by decide
  induction n using Nat.strongRecOn with
  | ind n ih =>
      rw [Nat.toDigits_eq_if (by decide)] at h
      split at h
      · next hlt =>
          obtain rfl := List.mem_singleton.1 h
          exact hdigits n hlt
      · next hge =>
          rw [List.map_append, List.mem_append] at h
          rcases h with h | h
          · exact ih (n / 16) (by omega) h
          · obtain rfl := List.mem_singleton.1 h
            exact hdigits (n % 16) (Nat.mod_lt _ (by decide))

/-- The digits of a number are digits, with the zeros in front of them as well. -/
theorem isSome_digitIn_of_mem_hexDigits {c : Char} (h : c ∈ hexDigits width n) :
    (digitIn 16 c).isSome = true := by
  rw [hexDigits, List.leftpad, List.mem_append] at h
  rcases h with h | h
  · obtain rfl := List.eq_of_mem_replicate h
    decide
  · exact isSome_digitIn_of_mem_toDigits h

/-- Every number has a digit. -/
theorem hexDigits_ne_nil (width n : Nat) : hexDigits width n ≠ [] := by
  rw [hexDigits, List.leftpad]
  simp [Nat.toDigits_ne_nil]

end Hexadecimal

section Decimal

variable {n k : Nat}

/-- In decimal every character of a number is a digit. -/
theorem isDigit_of_mem_repr {c : Char} (h : c ∈ n.repr.toList) : c.isDigit = true := by
  rw [Nat.toList_repr] at h
  exact Nat.isDigit_of_mem_toDigits (by decide) (by decide) h

/-- Decimal digits can be read back. -/
theorem toList_repr_injective (h : n.repr.toList = k.repr.toList) : n = k := by
  rw [Nat.toList_repr, Nat.toList_repr] at h
  have hvalue := congrArg (Nat.ofDigitChars 10 · 0) h
  simpa only [Nat.ofDigitChars_ten_toDigits] using hvalue

end Decimal

/-- Texts that are made of one kind of characters end where another character stands. -/
theorem append_inj_of_stop {p : Char → Bool} {l l' r r' : List Char} {c c' : Char}
    (hl : ∀ x ∈ l, p x = true) (hl' : ∀ x ∈ l', p x = true) (hc : p c = false)
    (hc' : p c' = false) (h : l ++ c :: r = l' ++ c' :: r') : l = l' ∧ c :: r = c' :: r' := by
  have htake {l r : List Char} {c : Char} (hl : ∀ x ∈ l, p x = true) (hc : p c = false) :
      (l ++ c :: r).takeWhile p = l := by
    rw [List.takeWhile_append_of_pos hl, List.takeWhile_cons, hc]
    exact List.append_nil l
  have hfirst : l = l' := by rw [← htake hl hc, h, htake hl' hc']
  subst hfirst
  exact ⟨rfl, List.append_cancel_left h⟩

end Chip8
