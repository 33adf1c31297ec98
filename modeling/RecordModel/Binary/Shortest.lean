/-
**The shortest decimal that reads back.**

Every real number in a certain interval around a binary number rounds to it: half a unit in the
last place to either side, a quarter below if the number opens a new exponent, the ends included
when the significand is even.  The shortest decimal is found by trying the grids of decimal
numbers with one digit, two digits and so on, as many as the leading digit allows.  On each grid
only the two neighbours of the number have to be looked at, since if any point of the grid lies in
the interval one of them does.  Of two neighbours that both lie in the interval the nearer is
taken, and a tie is decided by the caller.

The interval is kept as whole numbers of quarters of a unit, times a common factor that makes
every comparison one between natural numbers.

Main definitions:

* `TieRule` — which of two equally near decimals is taken;
* `Interval`, `Binary.interval` — the reals that round to a number;
* `Interval.leadingExponent` — the exponent of the leading decimal digit;
* `ShortDecimal`, `Binary.shortest` — the digits and the exponent of the shortest decimal.
-/

import RecordModel.Binary.Rounding

set_option relaxedAutoImplicit false
set_option autoImplicit false

namespace RecordModel

/-- Which of two equally near decimals is taken. -/
inductive TieRule where
  | even
  | up
deriving DecidableEq

/-- A decimal `digits * 10 ^ exponent`. -/
structure ShortDecimal where
  digits : Nat
  exponent : Int
deriving DecidableEq

/-- The reals between `low / unit` and `high / unit` around `centre / unit`. -/
structure Interval where
  low : Nat
  centre : Nat
  high : Nat
  unit : Nat
  /-- Whether the ends belong to it. -/
  closed : Bool

namespace Interval

/-- Whether the decimal `n * 10 ^ e` lies in the interval. -/
def contains (i : Interval) (n : Nat) (e : Int) : Bool :=
  let a := if 0 ≤ e then n * pow10 e.toNat * i.unit else n * i.unit
  let scale := if 0 ≤ e then 1 else pow10 (-e).toNat
  if i.closed then i.low * scale ≤ a && a ≤ i.high * scale
  else i.low * scale < a && a < i.high * scale

/-- The exponent `k` with `10 ^ k ≤ centre / unit < 10 ^ (k + 1)`. -/
def leadingExponent (i : Interval) : Int :=
  if i.unit ≤ i.centre then ((Nat.toDigits 10 (i.centre / i.unit)).length : Int) - 1
  else
    let l := (Nat.toDigits 10 (i.unit / i.centre)).length
    if i.unit ≤ pow10 (l - 1) * i.centre then -((l - 1 : Nat) : Int) else -(l : Int)

/-- Twice the centre in steps of `10 ^ e`, as numerator and denominator. -/
def centreInSteps (i : Interval) (e : Int) : Nat × Nat :=
  if 0 ≤ e then (i.centre, i.unit * pow10 e.toNat) else (i.centre * pow10 (-e).toNat, i.unit)

/-- The neighbour of the centre on the grid of multiples of `10 ^ e` that lies in the interval. -/
def onGrid? (i : Interval) (tie : TieRule) (e : Int) : Option Nat :=
  let (num, den) := i.centreInSteps e
  let below := num / den
  match i.contains below e, i.contains (below + 1) e with
  | true, true =>
      let twice := 2 * (num % den)
      if twice < den then some below
      else if den < twice then some (below + 1)
      else match tie with
        | .up => some (below + 1)
        | .even => some (if below % 2 = 0 then below else below + 1)
  | true, false => some below
  | false, true => some (below + 1)
  | false, false => none

end Interval

/-- The number without the zeros at its end, and how many there were; at most `fuel`. -/
def dropZeros : Nat → Nat → Nat × Nat
  | 0, n => (n, 0)
  | fuel + 1, n =>
      if n % 10 = 0 then
        let (m, k) := dropZeros fuel (n / 10)
        (m, k + 1)
      else (n, 0)

namespace Binary

variable {f : BinaryFormat}

/-- The most digits that a shortest decimal of the format needs. -/
def mostDigits (f : BinaryFormat) : Nat := (f.fractionBits + 1) * 30103 / 100000 + 2

/-- The reals that round to the absolute value of `x`. -/
def interval (x : Binary f) : Interval :=
  let m := x.significand
  let opens := x.fraction = 0 ∧ 1 < x.exponentField
  let e := x.exponent - 2
  let factor := pow2 e.toNat
  { low := (if opens then 4 * m - 1 else 4 * m - 2) * factor
    centre := 4 * m * factor
    high := (4 * m + 2) * factor
    unit := pow2 (-e).toNat
    closed := m % 2 == 0 }

/-- The shortest decimal that rounds to the absolute value of the finite number `x`, and of those
the nearest to it; zero for zero. -/
def shortest (tie : TieRule) (x : Binary f) : ShortDecimal :=
  if x.significand = 0 then ⟨0, 0⟩
  else
    let i := x.interval
    let k := i.leadingExponent
    let found := (List.range (mostDigits f)).findSome? fun (n : Nat) =>
      (i.onGrid? tie (k - n)).map fun d => (d, k - n)
    let (d, e) := found.getD (i.centre / i.unit, 0)
    let (digits, zeros) := dropZeros (mostDigits f) d
    ⟨digits, e + zeros⟩

example : shortest .even (⟨0x3fb999999999999a⟩ : Binary64) = ⟨1, -1⟩ := by decide +kernel
example : shortest .even (⟨1⟩ : Binary64) = ⟨5, -324⟩ := by decide +kernel
example : shortest .even (⟨0x7fefffffffffffff⟩ : Binary64) = ⟨17976931348623157, 292⟩ := by
  decide +kernel
example : shortest .even (⟨0x3e60000000000000⟩ : Binary64) = ⟨29802322387695312, -24⟩ := by
  decide +kernel
example : shortest .up (⟨0x3e60000000000000⟩ : Binary64) = ⟨29802322387695313, -24⟩ := by
  decide +kernel
example : mostDigits .double = 17 ∧ mostDigits .single = 9 := by decide

end Binary

end RecordModel
