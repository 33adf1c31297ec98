/-
**Quoted text.**

A text is shown between double quotes.  The quote, the backslash and the usual control characters
have an escape of one letter, and every other hidden character is written by its number, as
`\u{7f}`; all else stands for itself.

Main definitions:

* `Text.escapeShown` — the form of one character;
* `Text.quoted` — the form of a text.
-/

import RecordModel.Text.Hidden

set_option relaxedAutoImplicit false
set_option autoImplicit false

namespace RecordModel.Text

/-- The form of one character inside a quoted text. -/
def escapeShown (c : Char) : List Char :=
  if c = '"' then ['\\', '"']
  else if c = '\\' then ['\\', '\\']
  else if c = '\n' then ['\\', 'n']
  else if c = '\r' then ['\\', 'r']
  else if c = '\t' then ['\\', 't']
  else if c = '\x00' then ['\\', '0']
  else if CharSet.hidden.contains c then
    ['\\', 'u', '\x7b'] ++ Nat.toDigits 16 c.toNat ++ ['\x7d']
  else [c]

/-- The quoted form of a text. -/
def quoted (s : String) : String :=
  String.ofList ('"' :: s.toList.flatMap escapeShown ++ ['"'])

example : quoted "a\"b\\\n\x7fé" = "\"a\\\"b\\\\\\n\\u\x7b7f\x7dé\"" := by decide +kernel

end RecordModel.Text
