/-
**Decimals of fixed scale.**

A decimal is a whole number of 128 bits together with the number of its digits behind the point.
Its text has exactly those digits behind the point and at least one digit before it.  A text is
read as a decimal when it is digits with at most one point among them, after an optional sign.

Main definitions:

* `Decimal` — the decimals;
* `Decimal.digits` — the number of digits a decimal takes;
* `Decimal.text`, `Decimal.parse` — writing and reading.

Main results:

* `Decimal.digits_le_iff` — how many digits a decimal takes, by its size.
-/

import RecordModel.Power
import RecordModel.Text.Digits

set_option relaxedAutoImplicit false
set_option autoImplicit false

namespace RecordModel

/-- The number `unscaled * 10 ^ -scale`. -/
structure Decimal where
  unscaled : Int
  scale : Nat
  /-- The whole number has 128 bits, the sign among them. -/
  fits : -(pow2 127 : Int) ≤ unscaled ∧ unscaled < pow2 127
deriving DecidableEq

namespace Decimal

/-- The decimal of a whole number, if that has 128 bits. -/
def ofUnscaled? (unscaled : Int) (scale : Nat) : Option Decimal :=
  if h : -(pow2 127 : Int) ≤ unscaled ∧ unscaled < pow2 127 then some ⟨unscaled, scale, h⟩
  else none

/-- The number of digits: those of the whole number, or those behind the point if they are more. -/
def digits (d : Decimal) : Nat := max (Nat.toDigits 10 d.unscaled.natAbs).length d.scale

/-- A decimal takes at most `p` digits when its whole number is below `10 ^ p` and its scale is at
most `p`. -/
theorem digits_le_iff (d : Decimal) (p : Nat) (hp : 0 < p) :
    d.digits ≤ p ↔ d.unscaled.natAbs < pow10 p ∧ d.scale ≤ p := by
  rw [digits, Nat.max_le]
  exact and_congr (Nat.length_toDigits_le_iff (by omega) hp) Iff.rfl

/-- The digits of a decimal, the point before the last `scale` of them. -/
def text (d : Decimal) : List Char :=
  let sign := if d.unscaled < 0 then ['-'] else []
  let digits := Text.padded (d.scale + 1) d.unscaled.natAbs
  let whole := digits.length - d.scale
  if d.scale = 0 then sign ++ Nat.toDigits 10 d.unscaled.natAbs
  else sign ++ digits.take whole ++ '.' :: digits.drop whole

/-- The decimal of digits before and behind the point. -/
def ofDigits (negative : Bool) (whole fraction : List Char) : Option Decimal :=
  let digits := whole ++ fraction
  let magnitude := Nat.ofDigitChars 10 digits 0
  if digits.isEmpty || !digits.all Char.isDigit then none
  else if h : magnitude < pow2 127 then
    some ⟨if negative then -magnitude else magnitude, fraction.length, by split <;> omega⟩
  else none

/-- The decimal of digits with at most one point, without a sign. -/
def parseUnsigned (negative : Bool) (cs : List Char) : Option Decimal :=
  match cs.span (· ≠ '.') with
  | (whole, []) => ofDigits negative whole []
  | (whole, _ :: fraction) => ofDigits negative whole fraction

/-- The decimal that a text holds. -/
def parse : List Char → Option Decimal
  | '-' :: rest => parseUnsigned true rest
  | '+' :: rest => parseUnsigned false rest
  | cs => parseUnsigned false cs

example : (parse "-100.05".toList).map Decimal.text = some "-100.05".toList := by decide +kernel
example : (parse "+.5".toList).map Decimal.text = some "0.5".toList := by decide +kernel
example : parse "1.2.3".toList = none := by decide +kernel

end Decimal

end RecordModel
