/-
**JSON text as it is written.**

Reading happens in two steps.  The first step, here, settles only what the grammar settles: it
takes a text to the tree of its brackets and leaves everything else as written — a number by its
digits, a string with its numbered units, an object with every member in order, repeated keys
included.  What a number or a string stands for is the second step (`Json.Reader`), which a reader
can leave out for the parts that it ignores.

The two functions that go down into brackets are driven by a bound on the number of steps.
`Written.parse` computes it from the length of the text, so it never shows.

Main definitions:

* `TextUnit`, `NumberLiteral`, `Written` — what stands in the text;
* `scanNumber`, `scanString` — a number and a string at the front of a text;
* `readValue`, `Written.parse` — a value at the front of a text, and a whole text.
-/

import RecordModel.Json.Basic

set_option relaxedAutoImplicit false
set_option autoImplicit false

namespace RecordModel.Json

/-- A unit of a string: a character, or a unit of 16 bits given by its number. -/
inductive TextUnit where
  | char (c : Char)
  | code (n : Nat)

/-- A number by its digits. -/
structure NumberLiteral where
  negative : Bool
  whole : List Char
  fraction : Option (List Char)
  exponent : Option Int

/-- A value as it is written. -/
inductive Written where
  | null
  | boolean (b : Bool)
  | number (literal : NumberLiteral)
  | string (units : List TextUnit)
  | array (items : List Written)
  | object (members : List (List TextUnit × Written))

/-! ### Blanks, numbers and strings -/

/-- The characters that may stand between the parts of a text. -/
def isBlank (c : Char) : Bool := c = ' ' || c = '\n' || c = '\t' || c = '\r'

/-- The text without the blanks in front. -/
def skipBlanks (cs : List Char) : List Char := cs.dropWhile isBlank

/-- At least one digit. -/
def scanDigits (cs : List Char) : Option (List Char × List Char) :=
  match cs.span Char.isDigit with
  | ([], _) => none
  | (digits, rest) => some (digits, rest)

/-- The digits before the point: a zero alone, or digits that do not start with a zero. -/
def scanWhole : List Char → Option (List Char × List Char)
  | '0' :: rest => some (['0'], rest)
  | cs => scanDigits cs

/-- The point and the digits behind it, if there is a point. -/
def scanFraction : List Char → Option (Option (List Char) × List Char)
  | '.' :: rest => (scanDigits rest).map fun (digits, rest) => (some digits, rest)
  | cs => some (none, cs)

/-- The digits of an exponent, with a sign or without. -/
def scanSigned (cs : List Char) : Option (Int × List Char) :=
  match cs with
  | '-' :: rest => (scanDigits rest).map fun (ds, rest) => (-(Nat.ofDigitChars 10 ds 0 : Int), rest)
  | '+' :: rest => (scanDigits rest).map fun (ds, rest) => (Nat.ofDigitChars 10 ds 0, rest)
  | _ => (scanDigits cs).map fun (ds, rest) => (Nat.ofDigitChars 10 ds 0, rest)

/-- The exponent, if there is one. -/
def scanExponent : List Char → Option (Option Int × List Char)
  | 'e' :: rest => (scanSigned rest).map fun (e, rest) => (some e, rest)
  | 'E' :: rest => (scanSigned rest).map fun (e, rest) => (some e, rest)
  | cs => some (none, cs)

/-- A number at the front of a text. -/
def scanNumber (cs : List Char) : Option (NumberLiteral × List Char) := do
  let (negative, cs) := match cs with
    | '-' :: rest => (true, rest)
    | _ => (false, cs)
  let (whole, cs) ← scanWhole cs
  let (fraction, cs) ← scanFraction cs
  let (exponent, cs) ← scanExponent cs
  some (⟨negative, whole, fraction, exponent⟩, cs)

/-- The value of a hexadecimal digit. -/
def hexValue? (c : Char) : Option Nat :=
  if '0' ≤ c ∧ c ≤ '9' then some (c.toNat - '0'.toNat)
  else if 'a' ≤ c ∧ c ≤ 'f' then some (c.toNat - 'a'.toNat + 10)
  else if 'A' ≤ c ∧ c ≤ 'F' then some (c.toNat - 'A'.toNat + 10)
  else none

/-- The character that a letter behind a backslash stands for. -/
def unescape? : Char → Option Char
  | '"' => some '"'
  | '\\' => some '\\'
  | '/' => some '/'
  | 'b' => some '\x08'
  | 'f' => some '\x0c'
  | 'n' => some '\n'
  | 'r' => some '\r'
  | 't' => some '\t'
  | _ => none

/-- The units of a string up to its closing quote, and the text behind it.  A control character
has to be escaped. -/
def scanString : List Char → Option (List TextUnit × List Char)
  | [] => none
  | '"' :: rest => some ([], rest)
  | '\\' :: 'u' :: a :: b :: c :: d :: rest => do
      let high := (← hexValue? a) * 16 + (← hexValue? b)
      let n := high * 256 + (← hexValue? c) * 16 + (← hexValue? d)
      let (units, rest) ← scanString rest
      some (.code n :: units, rest)
  | '\\' :: e :: rest => do
      let c ← unescape? e
      let (units, rest) ← scanString rest
      some (.char c :: units, rest)
  | c :: rest =>
      if c.toNat < 32 || c = '\\' then none
      else do
        let (units, rest) ← scanString rest
        some (.char c :: units, rest)

/-! ### Values -/

mutual

/-- A value at the front of a text, in at most `fuel` steps. -/
def readValue : Nat → List Char → Option (Written × List Char)
  | 0, _ => none
  | fuel + 1, cs =>
      match skipBlanks cs with
      | 'n' :: 'u' :: 'l' :: 'l' :: rest => some (.null, rest)
      | 't' :: 'r' :: 'u' :: 'e' :: rest => some (.boolean true, rest)
      | 'f' :: 'a' :: 'l' :: 's' :: 'e' :: rest => some (.boolean false, rest)
      | '"' :: rest => (scanString rest).map fun (units, rest) => (.string units, rest)
      | '[' :: rest =>
          match skipBlanks rest with
          | ']' :: rest => some (.array [], rest)
          | rest => (readItems fuel rest).map fun (items, rest) => (.array items, rest)
      | '\x7b' :: rest =>
          match skipBlanks rest with
          | '\x7d' :: rest => some (.object [], rest)
          | rest => (readMembers fuel rest).map fun (members, rest) => (.object members, rest)
      | cs => (scanNumber cs).map fun (literal, rest) => (.number literal, rest)

/-- The items of an array up to its closing bracket. -/
def readItems : Nat → List Char → Option (List Written × List Char)
  | 0, _ => none
  | fuel + 1, cs => do
      let (item, cs) ← readValue fuel cs
      match skipBlanks cs with
      | ',' :: rest =>
          let (items, rest) ← readItems fuel rest
          some (item :: items, rest)
      | ']' :: rest => some ([item], rest)
      | _ => none

/-- The members of an object up to its closing brace. -/
def readMembers : Nat → List Char → Option (List (List TextUnit × Written) × List Char)
  | 0, _ => none
  | fuel + 1, cs => do
      let '"' :: cs := skipBlanks cs | none
      let (key, cs) ← scanString cs
      let ':' :: cs := skipBlanks cs | none
      let (value, cs) ← readValue fuel cs
      match skipBlanks cs with
      | ',' :: rest =>
          let (members, rest) ← readMembers fuel rest
          some ((key, value) :: members, rest)
      | '\x7d' :: rest => some ([(key, value)], rest)
      | _ => none

end

/-- The value that a text holds, with nothing but blanks around it. -/
def Written.parse (text : String) : Option Written :=
  let cs := text.toList
  match readValue (2 * cs.length + 2) cs with
  | some (value, rest) => if skipBlanks rest = [] then some value else none
  | none => none

end RecordModel.Json
