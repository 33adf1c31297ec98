/-
**Calendar dates.**

A date is the number of its day, counted from the first of January 1970.  Years, months and days
of the month belong to its text: the Gregorian calendar, continued to all years before it, with a
year zero.  The dates reach from the first day of the year -262143 to the last of 262142.

The conversion counts days in eras of 400 years, which begin on the first of March: the day of the
leap year is then the last one of its year, and the months have a regular pattern.

Main definitions:

* `Date`, `Date.ofDay?` — the dates, and the date of a day number;
* `Date.dayOf`, `Date.ofCivil?` — the day number of a year, month and day, and their date;
* `Date.civil` — year, month and day of a date;
* `Date.text`, `Date.parse` — writing and reading.

Main results:

* `Date.ofDay?_day` — a date is the date of its day number;
* `Date.ofDay?_eq_some_iff` — a day number has at most one date.
-/

import RecordModel.Text.Digits

set_option relaxedAutoImplicit false
set_option autoImplicit false

namespace RecordModel

/-- A date, as the number of its day after the first of January 1970. -/
structure Date where
  day : Int
  /-- The day lies in the years -262143 to 262142. -/
  in_calendar : -96465292 ≤ day ∧ day ≤ 95026236
deriving DecidableEq

namespace Date

/-- The date of a day number, if it lies in the calendar. -/
def ofDay? (n : Int) : Option Date :=
  if h : -96465292 ≤ n ∧ n ≤ 95026236 then some ⟨n, h⟩ else none

@[simp] theorem ofDay?_day (d : Date) : ofDay? d.day = some d := by
  simp [ofDay?, d.in_calendar]

/-- A day number is the number of the date it has. -/
theorem ofDay?_eq_some_iff (n : Int) (d : Date) : ofDay? n = some d ↔ n = d.day := by
  constructor
  · intro h
    simp only [ofDay?] at h
    split at h
    · exact (congrArg Date.day (Option.some.inj h))
    · simp at h
  · rintro rfl
    exact ofDay?_day d

/-! ### Years, months and days -/

/-- Whether the year has a day more. -/
def isLeapYear (year : Int) : Bool := year % 4 = 0 && (year % 100 ≠ 0 || year % 400 = 0)

/-- The number of days of a month. -/
def daysInMonth (year : Int) (month : Nat) : Nat :=
  if month = 2 then (if isLeapYear year then 29 else 28)
  else if month = 4 || month = 6 || month = 9 || month = 11 then 30
  else 31

/-- The number of the day of a year, month and day of the month. -/
def dayOf (year : Int) (month day : Nat) : Int :=
  let y := if month ≤ 2 then year - 1 else year
  let yearOfEra := y % 400
  let monthsFromMarch : Int := if 2 < month then (month : Int) - 3 else month + 9
  let dayOfYear := (153 * monthsFromMarch + 2) / 5 + day - 1
  let dayOfEra := yearOfEra * 365 + yearOfEra / 4 - yearOfEra / 100 + dayOfYear
  y / 400 * 146097 + dayOfEra - 719468

/-- The date of a year, month and day, if there is one in the calendar. -/
def ofCivil? (year : Int) (month day : Nat) : Option Date :=
  if 1 ≤ month ∧ month ≤ 12 ∧ 1 ≤ day ∧ day ≤ daysInMonth year month
  then ofDay? (dayOf year month day)
  else none

/-- The year, the month and the day of the month of a date. -/
def civil (d : Date) : Int × Nat × Nat :=
  let z := d.day + 719468
  let era := z / 146097
  let dayOfEra := z % 146097
  let yearOfEra := (dayOfEra - dayOfEra / 1460 + dayOfEra / 36524 - dayOfEra / 146096) / 365
  let dayOfYear := dayOfEra - (365 * yearOfEra + yearOfEra / 4 - yearOfEra / 100)
  let monthsFromMarch := (5 * dayOfYear + 2) / 153
  let day := dayOfYear - (153 * monthsFromMarch + 2) / 5 + 1
  let month := if monthsFromMarch < 10 then monthsFromMarch + 3 else monthsFromMarch - 9
  let year := yearOfEra + era * 400
  (if month ≤ 2 then year + 1 else year, month.toNat, day.toNat)

/-! ### Text -/

/-- A year: four digits, and with a sign when it lies outside the years 0 to 9999. -/
def yearText (year : Int) : List Char :=
  if 0 ≤ year ∧ year ≤ 9999 then Text.padded 4 year.toNat
  else (if year < 0 then '-' else '+') :: Text.padded 4 year.natAbs

/-- Year, month and day, with dashes between them. -/
def text (d : Date) : List Char :=
  let (year, month, day) := d.civil
  yearText year ++ '-' :: Text.padded 2 month ++ '-' :: Text.padded 2 day

/-- The characters that may stand before a number. -/
def isSpace (c : Char) : Bool :=
  let n := c.toNat
  (9 ≤ n && n ≤ 13) || n == 32 || n == 0x85 || n == 0xa0 || n == 0x1680 ||
    (0x2000 ≤ n && n ≤ 0x200a) || n == 0x2028 || n == 0x2029 || n == 0x202f || n == 0x205f ||
    n == 0x3000

/-- A number of one or two digits, with spaces before it. -/
def scanPart (cs : List Char) : Option (Nat × List Char) :=
  Text.scanNumber 1 2 (cs.dropWhile isSpace)

/-- A year, with spaces before it: up to four digits, or any number of them after a sign. -/
def scanYear (cs : List Char) : Option (Int × List Char) :=
  match cs.dropWhile isSpace with
  | '-' :: rest => (Text.scanNumber 1 rest.length rest).map fun (n, rest) => (-(n : Int), rest)
  | '+' :: rest => (Text.scanNumber 1 rest.length rest).map fun (n, rest) => ((n : Int), rest)
  | cs => (Text.scanNumber 1 4 cs).map fun (n, rest) => ((n : Int), rest)

/-- The date that a text holds: year, month and day, with dashes between them. -/
def parse (cs : List Char) : Option Date := do
  let (year, cs) ← scanYear cs
  let '-' :: cs := cs | none
  let (month, cs) ← scanPart cs
  let '-' :: cs := cs | none
  let (day, cs) ← scanPart cs
  if cs = [] then ofCivil? year month day else none

example : (ofCivil? 2024 2 29).map Date.text = some "2024-02-29".toList := by decide +kernel
example : ofCivil? 2023 2 29 = none := by decide +kernel
example : (parse "-1-3-1".toList).map Date.text = some "-0001-03-01".toList := by decide +kernel
example : (parse "+262142-12-31".toList).map Date.day = some 95026236 := by decide +kernel
example : parse "+262143-01-01".toList = none := by decide +kernel

end Date

end RecordModel
