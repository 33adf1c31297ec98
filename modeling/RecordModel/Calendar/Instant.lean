/-
**Instants.**

An instant is a date and a time of day in universal time.

Main definitions:

* `Instant`, `Instant.ofUnix?` — the instants, and the one at so many seconds and nanoseconds after
  the first of January 1970;
* `Instant.unixSeconds` — the seconds of an instant on that count;
* `Instant.units`, `Instant.ofUnits?` — an instant as a whole number of milliseconds or of
  microseconds;
* `Instant.text`, `Instant.parse` — writing, and reading with a distance to universal time.
-/

import RecordModel.Calendar.TimeOfDay

set_option relaxedAutoImplicit false
set_option autoImplicit false

namespace RecordModel

/-- A date and a time of day in universal time. -/
structure Instant where
  date : Date
  time : TimeOfDay
deriving DecidableEq

namespace Instant

/-- The whole seconds since the first of January 1970. -/
def unixSeconds (i : Instant) : Int := i.date.day * 86400 + i.time.seconds

/-- The instant at `seconds` and `nanos` after the first of January 1970. -/
def ofUnix? (seconds : Int) (nanos : Nat) : Option Instant := do
  let date ← Date.ofDay? (seconds / 86400)
  let time ← TimeOfDay.ofParts? (seconds % 86400).toNat nanos
  some ⟨date, time⟩

/-- The whole units since the first of January 1970, `perSecond` of them to a second. -/
def units (perSecond : Nat) (i : Instant) : Int :=
  i.unixSeconds * perSecond + (i.time.nanos / (1000000000 / perSecond) : Nat)

/-- The instant that lies `n` units after the first of January 1970, `perSecond` of them to a
second. -/
def ofUnits? (perSecond : Nat) (n : Int) : Option Instant :=
  ofUnix? (n / perSecond) ((n % perSecond).toNat * (1000000000 / perSecond))

/-! ### Text -/

/-- Date and time of day in universal time. -/
def text (i : Instant) : List Char := i.date.text ++ 'T' :: i.time.text ++ "+00:00".toList

/-- The distance to universal time in seconds, at the end of a text: the letter for none, or a sign
with hours and minutes. -/
def parseOffset (cs : List Char) : Option Int :=
  match cs with
  | ['Z'] => some 0
  | ['z'] => some 0
  | sign :: rest => do
      let negative ← match sign with
        | '+' => some false
        | '-' => some true
        | '−' => some true
        | _ => none
      let (hours, rest) ← Text.scanNumber 2 2 rest
      let ':' :: rest := rest | none
      let (minutes, rest) ← Text.scanNumber 2 2 rest
      if rest = [] ∧ hours < 24 ∧ minutes < 60 then
        let seconds : Int := hours * 3600 + minutes * 60
        some (if negative then -seconds else seconds)
      else none
  | [] => none

/-- The instant that a text holds: a date of ten characters, a letter or a blank, a time of day of
eight characters with an optional fraction, and a distance to universal time. -/
def parse (cs : List Char) : Option Instant := do
  let (year, cs) ← Text.scanNumber 4 4 cs
  let '-' :: cs := cs | none
  let (month, cs) ← Text.scanNumber 2 2 cs
  let '-' :: cs := cs | none
  let (day, cs) ← Text.scanNumber 2 2 cs
  let separator :: cs := cs | none
  if separator = 'T' ∨ separator = 't' ∨ separator = ' ' then
    let (hour, cs) ← Text.scanNumber 2 2 cs
    let ':' :: cs := cs | none
    let (minute, cs) ← Text.scanNumber 2 2 cs
    let ':' :: cs := cs | none
    let (second, cs) ← Text.scanNumber 2 2 cs
    let (nanos, cs) ← TimeOfDay.scanFraction cs
    let offset ← parseOffset cs
    let date ← Date.ofCivil? year month day
    let time ← TimeOfDay.ofClock? hour minute second nanos
    ofUnix? (date.day * 86400 + time.seconds - offset) time.nanos
  else none

example : (parse "2024-02-29t23:59:60.25-01:30".toList).map Instant.text
    = some "2024-03-01T01:29:60.250+00:00".toList := by decide +kernel
example : (ofUnits? 1000 (-1)).map Instant.text = some "1969-12-31T23:59:59.999+00:00".toList := by
  decide +kernel
example : (ofUnits? 1000 (-1)).map (Instant.units 1000) = some (-1) := by decide +kernel

end Instant

end RecordModel
