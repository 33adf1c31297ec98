/-
**Settings of the generator.**

Main definitions:

* `Settings` — the settings, with a default for each;
* `SettingsProblem`, `SettingsProblem.message` — what can be wrong with them;
* `Settings.problem?` — the first problem of some settings;
* `Settings.Valid` — settings without a problem.

Main results:

* `Settings.default_valid` — the defaults have no problem.
-/

import RecordModel.Binary.Rounding
import RecordModel.Value.Text

set_option relaxedAutoImplicit false
set_option autoImplicit false

namespace RecordModel

/-- What the generator is told. -/
structure Settings where
  /-- How often one record may stand on the chain of records that are being generated. -/
  selfReferenceDepth : Nat := 1
  /-- How deep types may be nested. -/
  nestingDepth : Nat := 32
  /-- How likely an optional value is absent. -/
  nullProbability : Binary64 := ⟨0⟩
  minItems : Nat := 1
  maxItems : Nat := 3
  minStringLength : Nat := 1
  maxStringLength : Nat := 20
  minBytesLength : Nat := 1
  maxBytesLength : Nat := 16
  /-- Numbers are drawn from the opposite of the bound up to the bound, which is left out. -/
  floatBound : Binary64 := ⟨0x412e848000000000⟩
  /-- The first year of dates. -/
  startYear : Int := 2000
  /-- The last year of dates. -/
  endYear : Int := 2030

/-- What can be wrong with settings. -/
inductive SettingsProblem where
  | selfReferenceDepth
  | nestingDepth
  | nullProbability (p : Binary64)
  | items
  | stringLength
  | bytesLength
  | floatBound
  | floatBoundTooGreat
  | years

/-- The message of a problem. -/
def SettingsProblem.message : SettingsProblem → String
  | .selfReferenceDepth => "max_self_reference_depth must be at least 1"
  | .nestingDepth => "max_nesting_depth must be at least 1"
  | .nullProbability p =>
      "optional_null_probability must be within 0.0 - 1.0, got " ++ Value.floatText p
  | .items => "min_items exceeds max_items"
  | .stringLength => "min_string_length exceeds max_string_length"
  | .bytesLength => "min_bytes_length exceeds max_bytes_length"
  | .floatBound => "float_bound must be a positive finite number"
  | .floatBoundTooGreat => "float_bound must not exceed 8.988465674311579e307"
  | .years => "start_year is after end_year"

namespace Settings

/-- The number one. -/
def one : Binary64 := ⟨0x3ff0000000000000⟩

/-- The greatest bound of numbers: half the greatest number, so that twice the bound is finite. -/
def greatestFloatBound : Binary64 := ⟨0x7fdfffffffffffff⟩

/-- Whether a number lies between zero and one. -/
def isProbability (p : Binary64) : Bool := !p.isNaN && 0 ≤ p.order && p.order ≤ one.order

/-- The first problem of the settings. -/
def problem? (s : Settings) : Option SettingsProblem :=
  if s.selfReferenceDepth = 0 then some .selfReferenceDepth
  else if s.nestingDepth = 0 then some .nestingDepth
  else if !isProbability s.nullProbability then some (.nullProbability s.nullProbability)
  else if s.maxItems < s.minItems then some .items
  else if s.maxStringLength < s.minStringLength then some .stringLength
  else if s.maxBytesLength < s.minBytesLength then some .bytesLength
  else if !s.floatBound.isFinite || s.floatBound.order ≤ 0 then some .floatBound
  else if greatestFloatBound.less s.floatBound then some .floatBoundTooGreat
  else if s.endYear < s.startYear then some .years
  else none

/-- The settings have no problem. -/
def Valid (s : Settings) : Prop := s.problem? = none

theorem default_valid : Valid {} := by
  unfold Valid
  decide +kernel

end Settings

end RecordModel
