/-
**Lower case.**

Every character is replaced by its lower-case counterpart.  Two characters need more than the
table: the capital I with a dot above becomes two characters, and the capital sigma becomes the
final form `ς` at the end of a word, which is after a letter with case and not before one, marks
and signs passed over on both sides.

Main definitions:

* `Text.lowerChar` — the counterpart of a character by the table alone;
* `Text.endsWord` — whether a place between two stretches of text is the end of a word;
* `Text.lowercase` — the lower-case form of a text.
-/

import RecordModel.Text.Casing

set_option relaxedAutoImplicit false
set_option autoImplicit false

namespace RecordModel.Text

/-- The counterpart of a character by the table alone. -/
def lowerChar (c : Char) : Char :=
  match CaseRun.table.find? (·.covers c.toNat) with
  | some run => Char.ofNat (c.toNat + run.shift).toNat
  | none => c

/-- Whether a letter with case comes next, marks and signs passed over. -/
def casedNext (cs : List Char) : Bool :=
  ((cs.dropWhile CharSet.caseIgnorable.contains).head?.map CharSet.cased.contains).getD false

/-- Whether a word ends between `before`, read backwards, and `after`. -/
def endsWord (before after : List Char) : Bool :=
  casedNext before && !casedNext after

/-- The lower-case form of `c`, with the text before it read backwards and the text after it. -/
def lowerAt (before : List Char) (c : Char) (after : List Char) : List Char :=
  if c = 'İ' then ['i', '\u0307']
  else if c = 'Σ' then [if endsWord before after then 'ς' else 'σ']
  else [lowerChar c]

/-- The lower-case form of a stretch of text that follows `before`, read backwards. -/
def lowerChars (before : List Char) : List Char → List Char
  | [] => []
  | c :: after => lowerAt before c after ++ lowerChars (c :: before) after

/-- The lower-case form of a text. -/
def lowercase (s : String) : String := String.ofList (lowerChars [] s.toList)

example : lowercase "List(Record(\"GRÖßE\"))" = "list(record(\"größe\"))" := by decide +kernel
example : lowercase "ΟΔΟΣ, ΣΑΣ'" = "οδος, σας'" := by decide +kernel

end RecordModel.Text
