/-
**Numbers in text.**

Main definitions:

* `Text.padded` — a number in decimal digits, filled up with zeros in front;
* `Text.scanNumber` — a number of so many digits at the front of a text;
* `Text.hexByte` — a byte in two hexadecimal digits.

Main results:

* `Text.length_padded`, `Text.value_padded` — filling up gives at least the width, and does not
  change the number;
* `Text.scanNumber_value`, `Text.scanNumber_lt` — what is read is the value of a stretch of digits
  of the right length.
-/

import RecordModel.Power

set_option relaxedAutoImplicit false
set_option autoImplicit false

namespace RecordModel.Text

/-- The decimal digits of `n`, filled up with zeros in front to `width` characters. -/
def padded (width n : Nat) : List Char :=
  let digits := Nat.toDigits 10 n
  List.replicate (width - digits.length) '0' ++ digits

theorem length_padded (width n : Nat) :
    (padded width n).length = max width (Nat.toDigits 10 n).length := by
  simp [padded]
  omega

theorem value_padded (width n : Nat) : Nat.ofDigitChars 10 (padded width n) 0 = n := by
  simp [padded, Nat.ofDigitChars_append, Nat.ofDigitChars_replicate_zero,
    Nat.ofDigitChars_toDigits]

theorem isDigit_of_mem_padded {width n : Nat} {c : Char} (h : c ∈ padded width n) :
    c.isDigit = true := by
  simp only [padded, List.mem_append, List.mem_replicate] at h
  rcases h with ⟨_, rfl⟩ | h
  · decide
  · exact Nat.isDigit_of_mem_toDigits (by omega) (by omega) h

/-- A number of `least` to `most` digits at the front of a text, and the text behind it. -/
def scanNumber (least most : Nat) (cs : List Char) : Option (Nat × List Char) :=
  let digits := (cs.take most).takeWhile Char.isDigit
  if least ≤ digits.length then
    some (Nat.ofDigitChars 10 digits 0, cs.drop digits.length)
  else none

/-- What is read is the value of the digits in front of the rest. -/
theorem scanNumber_value {least most n : Nat} {cs rest : List Char}
    (h : scanNumber least most cs = some (n, rest)) :
    ∃ digits, cs = digits ++ rest ∧ (∀ c ∈ digits, c.isDigit = true) ∧
      least ≤ digits.length ∧ digits.length ≤ most ∧ n = Nat.ofDigitChars 10 digits 0 := by
  simp only [scanNumber] at h
  split at h
  · rename_i hl
    simp only [Option.some.injEq, Prod.mk.injEq] at h
    obtain ⟨hn, hr⟩ := h
    refine ⟨(cs.take most).takeWhile Char.isDigit, ?_, ?_, hl, ?_, hn.symm⟩
    · rw [← hr]
      have hp : (cs.take most).takeWhile Char.isDigit <+: cs :=
        (List.takeWhile_prefix _).trans (List.take_prefix _ _)
      exact (List.prefix_iff_eq_append.mp hp).symm
    · intro c hc
      exact List.all_eq_true.mp List.all_takeWhile c hc
    · exact Nat.le_trans (List.takeWhile_prefix _).length_le (List.length_take_le _ _)
  · simp at h

/-- Digits behind a number make one below the next number with as many zeros behind it. -/
theorem ofDigitChars_lt {digits : List Char} (h : ∀ c ∈ digits, c.isDigit = true) (n : Nat) :
    Nat.ofDigitChars 10 digits n < (n + 1) * pow10 digits.length := by
  induction digits generalizing n with
  | nil => simp [pow10_zero]
  | cons c rest ih =>
      have hdigit : c.toNat - '0'.toNat < 10 := by
        have hc : c.toNat ≤ 57 := (Char.isDigit_iff_toNat.mp (h c (List.mem_cons_self ..))).2
        have hzero : '0'.toNat = 48 := rfl
        omega
      rw [Nat.ofDigitChars_cons, List.length_cons, pow10_succ, Nat.mul_comm (pow10 _),
        ← Nat.mul_assoc]
      refine Nat.lt_of_lt_of_le (ih (fun c hc => h c (List.mem_cons_of_mem _ hc)) _) ?_
      exact Nat.mul_le_mul_right _ (by omega)

theorem scanNumber_lt {least most n : Nat} {cs rest : List Char}
    (h : scanNumber least most cs = some (n, rest)) : n < pow10 most := by
  obtain ⟨digits, -, hdigits, -, hlength, rfl⟩ := scanNumber_value h
  have hlt := ofDigitChars_lt hdigits 0
  rw [Nat.zero_add, Nat.one_mul] at hlt
  exact Nat.lt_of_lt_of_le hlt (Nat.pow_le_pow_right (by decide) hlength)

/-- A byte in two hexadecimal digits. -/
def hexByte (b : UInt8) : List Char :=
  [Nat.digitChar (b.toNat / 16), Nat.digitChar (b.toNat % 16)]

end RecordModel.Text
