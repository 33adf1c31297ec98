/-
**What a JSON text stands for.**

The second step of reading gives the written parts their meaning.  A number without a point and an
exponent is a whole number as long as it fits 64 bits.  Any other number is a binary number, made of
its digits and a power of ten with a rounding at each step, so that the last bit may differ from
that of the nearest binary number; it has to be finite.  Numbered units of a string have to pair up
into characters.  Brackets may be nested to a fixed depth.

Main definitions:

* `charsOfUnits` — the characters of a string;
* `NumberLiteral.value?` — the value of a number;
* `Json.ofWritten` — the value of a written tree;
* `Json.parse` — the value of a text.

Main results:

* `Json.ofWritten_null` — null is null, however deep brackets may be nested.
-/

import RecordModel.Json.Written

set_option relaxedAutoImplicit false
set_option autoImplicit false

namespace RecordModel.Json

/-! ### Strings -/

/-- The first half of a pair of units that make one character. -/
def isHighHalf (n : Nat) : Bool := 0xd800 ≤ n && n < 0xdc00

/-- The second half of a pair of units that make one character. -/
def isLowHalf (n : Nat) : Bool := 0xdc00 ≤ n && n < 0xe000

/-- The characters of a string, unless a half of a pair stands alone. -/
def charsOfUnits : List TextUnit → Option (List Char)
  | [] => some []
  | .char c :: rest => (charsOfUnits rest).map (c :: ·)
  | .code n :: rest =>
      if isHighHalf n then
        match rest with
        | .code m :: rest =>
            if isLowHalf m then
              (charsOfUnits rest).map
                (Char.ofNat (0x10000 + (n - 0xd800) * 0x400 + (m - 0xdc00)) :: ·)
            else none
        | _ => none
      else if isLowHalf n then none
      else (charsOfUnits rest).map (Char.ofNat n :: ·)

/-- The text of a string. -/
def textOfUnits (units : List TextUnit) : Option String := (charsOfUnits units).map String.ofList

/-! ### Numbers -/

/-- The number that `n` becomes when digits are written behind it, as long as it has 64 bits, and
the digits for which there is no room. -/
def keepDigits (n : Nat) : List Char → Nat × List Char
  | [] => (n, [])
  | c :: rest =>
      let m := Nat.ofDigitChars 10 [c] n
      if m < pow2 64 then keepDigits m rest else (n, c :: rest)

/-- A power of ten, up to the greatest that is finite. -/
def powerOfTen (e : Nat) : Binary64 := .nearest false (pow10 e) 1

/-- The number `x * 10 ^ e` for a number `x` of at most 64 bits, unless it is too great; the power
is rounded, and then the product or the quotient. -/
def scaleByTen (x : Binary64) (e : Int) : Option Binary64 :=
  if x.magnitude = 0 then some x
  else if 308 < e then none
  else if 0 ≤ e then some (x.times (powerOfTen e.toNat))
  else if -308 ≤ e then some (x.dividedBy (powerOfTen (-e).toNat))
  else if -616 ≤ e then
    some ((x.dividedBy (powerOfTen 308)).dividedBy (powerOfTen (-e - 308).toNat))
  else some (.ofMagnitude false 0)

/-- The value of a number with a point, an exponent or too many digits, unless it is too great.  As
many digits as fit 64 bits are read as a whole number; the digits that are left out before the point
and those that are kept behind it decide the power of ten. -/
def NumberLiteral.float? (l : NumberLiteral) : Option Json := do
  let fraction := l.fraction.getD []
  let (n, skipped) := keepDigits 0 l.whole
  let (n, ignored) := keepDigits n fraction
  let kept := fraction.length - ignored.length
  let e : Int := l.exponent.getD 0 + skipped.length - kept
  let x ← scaleByTen (.nearest false n 1) e
  if x.isFinite then some (.float (.ofMagnitude l.negative x.magnitude)) else none

/-- The value of a number, unless it is too great for a binary number. -/
def NumberLiteral.value? (l : NumberLiteral) : Option Json :=
  match l.fraction, l.exponent with
  | none, none =>
      let n := Nat.ofDigitChars 10 l.whole 0
      if l.negative then
        if 0 < n ∧ n ≤ pow2 63 then some (.integer (-n)) else l.float?
      else if n < pow2 64 then some (.integer n) else l.float?
  | _, _ => l.float?

/-! ### Values -/

mutual

/-- The value of a written tree, with room for `depth` levels of brackets. -/
def ofWritten (depth : Nat) : Written → Option Json
  | .null => some .null
  | .boolean b => some (.boolean b)
  | .number l => l.value?
  | .string units => (textOfUnits units).map .string
  | .array items =>
      match depth with
      | 0 => none
      | depth + 1 => (ofWrittenItems depth items).map .array
  | .object members =>
      match depth with
      | 0 => none
      | depth + 1 => (ofWrittenMembers depth members).map ofMembers

/-- The values of the items of an array. -/
def ofWrittenItems (depth : Nat) : List Written → Option (List Json)
  | [] => some []
  | w :: rest => do some ((← ofWritten depth w) :: (← ofWrittenItems depth rest))

/-- The keys and values of the members of an object. -/
def ofWrittenMembers (depth : Nat) :
    List (List TextUnit × Written) → Option (List (String × Json))
  | [] => some []
  | (key, w) :: rest => do
      let key ← textOfUnits key
      some ((key, ← ofWritten depth w) :: (← ofWrittenMembers depth rest))

end

/-- The most levels of brackets in a text. -/
def mostLevels : Nat := 127

/-- The value that a text holds. -/
def parse (text : String) : Option Json := (Written.parse text).bind (ofWritten mostLevels)

@[simp] theorem ofWritten_null (depth : Nat) : ofWritten depth .null = some .null := by
  simp [ofWritten]

example : ((parse "\x7b\"a\": -0, \"b\": 7, \"a\": 12\x7d").bind (get? "a")).bind toInt64?
    = some 12 := by decide +kernel
example : textOfUnits [.char 'a', .code 0xd83d, .code 0xde00] = some "a😀" := by decide +kernel
example : textOfUnits [.code 0xde00, .code 0xd83d] = none := by decide +kernel

end RecordModel.Json
