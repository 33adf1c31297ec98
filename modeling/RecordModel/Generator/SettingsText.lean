/-
**Settings as JSON text.**

Settings are written as an object whose members bear their names, or as a list in their order.  What
is left out has its default.  A name that comes twice, a value of the wrong kind and a thirteenth
item of the list are refused; members with other names are passed over without a look at their
values.

Main definitions:

* `SettingsKey` — the names of the settings, in order;
* `SettingsKey.read` — a setting that is written;
* `Settings.parse` — the settings that a text holds.
-/

import RecordModel.Generator.Settings
import RecordModel.Json.Reader

set_option relaxedAutoImplicit false
set_option autoImplicit false

namespace RecordModel

/-- The settings that can be written. -/
inductive SettingsKey where
  | selfReferenceDepth
  | nestingDepth
  | nullProbability
  | minItems
  | maxItems
  | minStringLength
  | maxStringLength
  | minBytesLength
  | maxBytesLength
  | floatBound
  | startYear
  | endYear
deriving DecidableEq

namespace SettingsKey

/-- The settings, in the order of a list. -/
def all : List SettingsKey :=
  [.selfReferenceDepth, .nestingDepth, .nullProbability, .minItems, .maxItems, .minStringLength,
    .maxStringLength, .minBytesLength, .maxBytesLength, .floatBound, .startYear, .endYear]

/-- The name of a setting. -/
def name : SettingsKey → String
  | .selfReferenceDepth => "max_self_reference_depth"
  | .nestingDepth => "max_nesting_depth"
  | .nullProbability => "optional_null_probability"
  | .minItems => "min_items"
  | .maxItems => "max_items"
  | .minStringLength => "min_string_length"
  | .maxStringLength => "max_string_length"
  | .minBytesLength => "min_bytes_length"
  | .maxBytesLength => "max_bytes_length"
  | .floatBound => "float_bound"
  | .startYear => "start_year"
  | .endYear => "end_year"

/-- A size: a whole number of 64 bits without a sign. -/
def size? : Json → Option Nat
  | .integer n => if 0 ≤ n ∧ n < pow2 64 then some n.toNat else none
  | _ => none

/-- A year: a whole number of 32 bits. -/
def year? : Json → Option Int
  | .integer n => if -(pow2 31 : Int) ≤ n ∧ n < pow2 31 then some n else none
  | _ => none

/-- The settings with one of them as it is written. -/
def read (key : SettingsKey) (written : Json.Written) (s : Settings) : Option Settings := do
  let j ← Json.ofWritten 0 written
  match key with
  | .selfReferenceDepth => return { s with selfReferenceDepth := ← size? j }
  | .nestingDepth => return { s with nestingDepth := ← size? j }
  | .nullProbability => return { s with nullProbability := ← j.toBinary64? }
  | .minItems => return { s with minItems := ← size? j }
  | .maxItems => return { s with maxItems := ← size? j }
  | .minStringLength => return { s with minStringLength := ← size? j }
  | .maxStringLength => return { s with maxStringLength := ← size? j }
  | .minBytesLength => return { s with minBytesLength := ← size? j }
  | .maxBytesLength => return { s with maxBytesLength := ← size? j }
  | .floatBound => return { s with floatBound := ← j.toBinary64? }
  | .startYear => return { s with startYear := ← year? j }
  | .endYear => return { s with endYear := ← year? j }

end SettingsKey

namespace Settings

/-- The settings with the members of an object, when those with the keys `seen` came before. -/
def readMembers (seen : List SettingsKey) :
    List (List Json.TextUnit × Json.Written) → Settings → Option Settings
  | [], s => some s
  | (units, written) :: rest, s => do
      let name ← Json.textOfUnits units
      match SettingsKey.all.find? (·.name = name) with
      | none => readMembers seen rest s
      | some key =>
          if key ∈ seen then none
          else readMembers (key :: seen) rest (← key.read written s)

/-- The settings with the items of a list, one for each of the keys. -/
def readItems : List SettingsKey → List Json.Written → Settings → Option Settings
  | _, [], s => some s
  | [], _ :: _, _ => none
  | key :: keys, written :: rest, s => do readItems keys rest (← key.read written s)

/-- The settings that a text holds. -/
def parse (text : String) : Option Settings := do
  match ← Json.Written.parse text with
  | .object members => readMembers [] members {}
  | .array items => readItems SettingsKey.all items {}
  | _ => none

example : (parse " \x7b\"max_items\": 5, \"other\": [1e999] \x7d ").map (·.maxItems) = some 5 := by
  decide +kernel
example : (parse "[2, 3]").map (fun s => (s.selfReferenceDepth, s.nestingDepth)) = some (2, 3) := by
  decide +kernel
example : (parse "[1,1,0,0,0,0,0,0,0,1,1,1,1]").isNone = true := by decide +kernel

end Settings

end RecordModel
