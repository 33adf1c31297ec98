/-
**Times of day.**

A time of day is a number of seconds since midnight and a fraction of a second in nanoseconds.  The
last second of a minute may be followed by a leap second, which is that last second with a fraction
of one second or more.

Main definitions:

* `TimeOfDay`, `TimeOfDay.ofParts?` — the times;
* `TimeOfDay.units`, `TimeOfDay.ofUnits?` — a time as a whole number of milliseconds or of
  microseconds;
* `TimeOfDay.text`, `TimeOfDay.parse` — writing and reading.

Main results:

* `TimeOfDay.ofParts?_eq_some_iff` — a time is made of its parts alone.
-/

import RecordModel.Calendar.Date
import RecordModel.Power

set_option relaxedAutoImplicit false
set_option autoImplicit false

namespace RecordModel

/-- A time of day. -/
structure TimeOfDay where
  /-- Seconds since midnight. -/
  seconds : Nat
  /-- Nanoseconds after that; from a thousand million on they are those of a leap second. -/
  nanos : Nat
  seconds_lt : seconds < 86400
  nanos_lt : nanos < 2000000000
  /-- A leap second follows the last second of a minute. -/
  leap : 1000000000 ≤ nanos → seconds % 60 = 59
deriving DecidableEq

namespace TimeOfDay

/-- The time of the given parts, if there is one. -/
def ofParts? (seconds nanos : Nat) : Option TimeOfDay :=
  if h : seconds < 86400 ∧ nanos < 2000000000 ∧ (1000000000 ≤ nanos → seconds % 60 = 59) then
    some ⟨seconds, nanos, h.1, h.2.1, h.2.2⟩
  else none

/-- A time is made of its parts alone. -/
theorem ofParts?_eq_some_iff (s n : Nat) (t : TimeOfDay) :
    ofParts? s n = some t ↔ s = t.seconds ∧ n = t.nanos := by
  constructor
  · intro h
    simp only [ofParts?] at h
    split at h
    · rw [← Option.some.inj h]
      exact ⟨rfl, rfl⟩
    · simp at h
  · rintro ⟨rfl, rfl⟩
    simp only [ofParts?]
    rw [dif_pos ⟨t.seconds_lt, t.nanos_lt, t.leap⟩]

/-! ### Whole numbers of units -/

/-- The whole units since midnight, `perSecond` of them to a second. -/
def units (perSecond : Nat) (t : TimeOfDay) : Nat :=
  t.seconds * perSecond + t.nanos / (1000000000 / perSecond)

/-- The time that lies `n` units after midnight, `perSecond` of them to a second. -/
def ofUnits? (perSecond : Nat) (n : Int) : Option TimeOfDay :=
  if n < 0 then none
  else ofParts? (n.toNat / perSecond) (n.toNat % perSecond * (1000000000 / perSecond))

/-! ### Text -/

/-- The digits of a fraction of a second: none, three, six or nine, as few as are exact. -/
def fractionText (nanos : Nat) : List Char :=
  if nanos = 0 then []
  else if nanos % 1000000 = 0 then '.' :: Text.padded 3 (nanos / 1000000)
  else if nanos % 1000 = 0 then '.' :: Text.padded 6 (nanos / 1000)
  else '.' :: Text.padded 9 nanos

/-- Hours, minutes and seconds; a leap second is the sixtieth. -/
def text (t : TimeOfDay) : List Char :=
  let leap := if 1000000000 ≤ t.nanos then 1 else 0
  Text.padded 2 (t.seconds / 3600) ++ ':' :: Text.padded 2 (t.seconds / 60 % 60) ++
    ':' :: Text.padded 2 (t.seconds % 60 + leap) ++ fractionText (t.nanos % 1000000000)

/-- The time of an hour, a minute and a second of which the sixtieth is a leap second. -/
def ofClock? (hour minute second nanos : Nat) : Option TimeOfDay :=
  if hour < 24 ∧ minute < 60 ∧ second ≤ 60 then
    let leap := if second = 60 then 1 else 0
    ofParts? (hour * 3600 + minute * 60 + second - leap) (nanos + leap * 1000000000)
  else none

/-- The fraction of a second in nanoseconds, if there is a point; digits beyond the ninth are
dropped. -/
def scanFraction : List Char → Option (Nat × List Char)
  | '.' :: rest =>
      let digits := rest.takeWhile Char.isDigit
      if digits.isEmpty then none
      else
        let kept := digits.take 9
        some (Nat.ofDigitChars 10 kept 0 * pow10 (9 - kept.length), rest.drop digits.length)
  | cs => some (0, cs)

/-- The time that a text holds: hours, minutes and seconds with colons between them, and a
fraction. -/
def parse (cs : List Char) : Option TimeOfDay := do
  let (hour, cs) ← Date.scanPart cs
  let ':' :: cs := cs | none
  let (minute, cs) ← Date.scanPart cs
  let ':' :: cs := cs | none
  let (second, cs) ← Date.scanPart cs
  let (nanos, cs) ← scanFraction cs
  if cs = [] then ofClock? hour minute second nanos else none

example : (parse "7:8:60.5".toList).map TimeOfDay.text = some "07:08:60.500".toList := by
  decide +kernel
example : (parse "23:59:59.1234567891".toList).map TimeOfDay.text
    = some "23:59:59.123456789".toList := by decide +kernel
example : parse "24:00:00".toList = none := by decide +kernel

end TimeOfDay

end RecordModel
