/-
**The text of a binary number.**

A number is written with the digits of its shortest decimal.  What a format decides beyond that is
gathered in one record: the exponents whose numbers are written without one, whether a whole number
carries a point and a zero, and how a tie between two digits goes.

Main definitions:

* `NumberStyle` — the decisions of a format;
* `NumberStyle.layout` — a decimal written out;
* `Binary.text` — the text of a finite number.
-/

import RecordModel.Binary.Shortest

set_option relaxedAutoImplicit false
set_option autoImplicit false

namespace RecordModel

/-- How numbers are laid out. -/
structure NumberStyle where
  /-- The least and the greatest exponent of the leading digit that is written without an
  exponent; without it no number has one. -/
  plain : Option (Int × Int)
  /-- Whether a whole number written without an exponent ends in `.0`. -/
  pointZero : Bool
  /-- How a tie between two digits goes. -/
  tie : TieRule

namespace NumberStyle

/-- Whether a number with this exponent of its leading digit is written without an exponent. -/
def isPlain (s : NumberStyle) (leading : Int) : Bool :=
  match s.plain with
  | none => true
  | some (least, greatest) => least ≤ leading && leading ≤ greatest

/-- A decimal without an exponent: the point behind, among or before the digits. -/
def layoutPlain (s : NumberStyle) (digits : List Char) (exponent : Int) : List Char :=
  if 0 ≤ exponent then
    digits ++ List.replicate exponent.toNat '0' ++ (if s.pointZero then ['.', '0'] else [])
  else
    let places := (-exponent).toNat
    if places < digits.length then
      digits.take (digits.length - places) ++ '.' :: digits.drop (digits.length - places)
    else ['0', '.'] ++ List.replicate (places - digits.length) '0' ++ digits

/-- A decimal with an exponent: one digit before the point, and the sign of the exponent always
written. -/
def layoutScientific (digits : List Char) (leading : Int) : List Char :=
  digits.take 1 ++ (if 1 < digits.length then '.' :: digits.drop 1 else []) ++
    ['e', if leading < 0 then '-' else '+'] ++ Nat.toDigits 10 leading.natAbs

/-- A decimal written out. -/
def layout (s : NumberStyle) (d : ShortDecimal) : List Char :=
  let digits := Nat.toDigits 10 d.digits
  let leading := d.exponent + digits.length - 1
  if s.isPlain leading then s.layoutPlain digits d.exponent else layoutScientific digits leading

end NumberStyle

/-- The text of a finite number. -/
def Binary.text {f : BinaryFormat} (s : NumberStyle) (x : Binary f) : List Char :=
  (if x.negative then ['-'] else []) ++ s.layout (x.shortest s.tie)

end RecordModel
