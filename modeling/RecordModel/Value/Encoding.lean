/-
**Values as JSON.**

A value is encoded the way a schema writes defaults: dates as the number of their day, times and
instants as the number of their units, bytes as the text whose characters have their numbers,
identifiers and decimals as text, maps and instances as objects.  A number that is not finite has
no encoding and becomes null.

Main definitions:

* `Value.byteChars` — bytes as text;
* `Value.toJson` — the encoding.

Main results:

* `Value.length_byteChars` — one character for each byte.
-/

import RecordModel.Json.Basic
import RecordModel.Value.Basic

set_option relaxedAutoImplicit false
set_option autoImplicit false

namespace RecordModel.Value

/-- The text with one character for each byte, of the same number. -/
def byteChars (bs : List UInt8) : List Char := bs.map fun b => Char.ofNat b.toNat

@[simp] theorem length_byteChars (bs : List UInt8) : (byteChars bs).length = bs.length := by
  simp [byteChars]

/-- A finite number, or null. -/
def finiteToJson (x : Binary64) : Json := if x.isFinite then .float x else .null

mutual

/-- The encoding of a value. -/
def toJson : Value → Json
  | .null => .null
  | .boolean b => .boolean b
  | .int32 n => .integer n.toInt
  | .int64 n => .integer n.toInt
  | .float32 x => finiteToJson x.widen
  | .float64 x => finiteToJson x
  | .bytes bs => .string (String.ofList (byteChars bs))
  | .string s => .string s
  | .date d => .integer d.day
  | .timeMillis t => .integer (t.units 1000)
  | .timeMicros t => .integer (t.units 1000000)
  | .timestampMillis i => .integer (i.units 1000)
  | .timestampMicros i => .integer (i.units 1000000)
  | .uuid u => .string (String.ofList u.text)
  | .decimal d => .string (String.ofList d.text)
  | .fixed bs => .string (String.ofList (byteChars bs))
  | .enum s => .string s
  | .array items => .array (toJsonItems items)
  | .map entries => .ofMembers (toJsonMembers entries)
  | .record ⟨_, fields⟩ => .ofMembers (toJsonMembers fields)

/-- The encodings of the items of an array. -/
def toJsonItems : List Value → List Json
  | [] => []
  | v :: vs => toJson v :: toJsonItems vs

/-- The encodings of named values. -/
def toJsonMembers : List (String × Value) → List (String × Json)
  | [] => []
  | (k, v) :: vs => (k, toJson v) :: toJsonMembers vs

end

theorem toJsonItems_eq_map (items : List Value) : toJsonItems items = items.map toJson := by
  induction items with
  | nil => simp [toJsonItems]
  | cons v vs ih => simp [toJsonItems, ih]

theorem toJsonMembers_eq_map (entries : List (String × Value)) :
    toJsonMembers entries = entries.map fun e => (e.1, toJson e.2) := by
  induction entries with
  | nil => simp [toJsonMembers]
  | cons e es ih => simp [toJsonMembers, ih]

end RecordModel.Value
