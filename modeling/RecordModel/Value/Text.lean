/-
**Values as text.**

The text of a value is for people to read: numbers in full without an exponent, bytes in
hexadecimal digits, text and the keys of maps in quotes, the fields of an instance as `name=value`.

Main definitions:

* `Value.numberStyle` — how numbers are laid out;
* `Value.floatText` — the text of a number, finite or not;
* `Value.text` — the text of a value.
-/

import RecordModel.Binary.Layout
import RecordModel.Text.Quoted
import RecordModel.Value.Basic

set_option relaxedAutoImplicit false
set_option autoImplicit false

namespace RecordModel.Value

/-- No number has an exponent, a whole number has no point, and of two equally near digits the
greater one is written. -/
def numberStyle : NumberStyle where
  plain := none
  pointZero := false
  tie := .up

/-- The text of a number, finite or not. -/
def floatText {f : BinaryFormat} (x : Binary f) : String :=
  if x.isNaN then "NaN"
  else if x.isFinite then String.ofList (x.text numberStyle)
  else if x.negative then "-inf"
  else "inf"

/-- Bytes in hexadecimal digits. -/
def bytesText (bs : List UInt8) : String := "0x" ++ String.ofList (bs.flatMap Text.hexByte)

mutual

/-- The text of a value. -/
def text : Value → String
  | .null => "null"
  | .boolean b => if b then "true" else "false"
  | .int32 n => toString n.toInt
  | .int64 n => toString n.toInt
  | .float32 x => floatText x
  | .float64 x => floatText x
  | .bytes bs => bytesText bs
  | .string s => Text.quoted s
  | .date d => String.ofList d.text
  | .timeMillis t => String.ofList t.text
  | .timeMicros t => String.ofList t.text
  | .timestampMillis i => String.ofList i.text
  | .timestampMicros i => String.ofList i.text
  | .uuid u => String.ofList u.text
  | .decimal d => String.ofList d.text
  | .fixed bs => bytesText bs
  | .enum s => s
  | .array items => "[" ++ ", ".intercalate (itemTexts items) ++ "]"
  | .map entries => "\x7b" ++ ", ".intercalate (entryTexts entries) ++ "\x7d"
  | .record ⟨name, fields⟩ => name ++ "(" ++ ", ".intercalate (fieldTexts fields) ++ ")"

/-- The texts of the items of an array. -/
def itemTexts : List Value → List String
  | [] => []
  | v :: vs => text v :: itemTexts vs

/-- The texts of the entries of a map. -/
def entryTexts : List (String × Value) → List String
  | [] => []
  | (k, v) :: vs => (Text.quoted k ++ ": " ++ text v) :: entryTexts vs

/-- The texts of the fields of an instance. -/
def fieldTexts : List (String × Value) → List String
  | [] => []
  | (k, v) :: vs => (k ++ "=" ++ text v) :: fieldTexts vs

end

end RecordModel.Value
