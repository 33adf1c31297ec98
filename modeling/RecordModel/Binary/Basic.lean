/-
**Binary floating-point numbers.**

A number of a binary format is its bits: a sign, an exponent and a fraction.  The bits without the
sign, read as a natural number and called the *magnitude* here, grow with the absolute value, so
that order and range are questions about natural numbers: the infinity lies above every finite
magnitude, and what lies above the infinity is not a number.  A finite magnitude stands for
`significand * 2 ^ exponent`, exactly.

Main definitions:

* `BinaryFormat`, `BinaryFormat.single`, `BinaryFormat.double` — the widths of exponent and
  fraction, and the two formats in use;
* `Binary`, `Binary32`, `Binary64` — the numbers of a format;
* `Binary.isFinite`, `Binary.order`, `Binary.same`, `Binary.less` — finiteness and the order of
  numbers, in which the two zeros are equal and nothing is equal to what is not a number;
* `Binary.significand`, `Binary.exponent` — the exact value of a finite number.

Main results:

* `Binary.ofMagnitude_magnitude`, `Binary.ofMagnitude_negative` — the parts of a number read back.
-/

import RecordModel.Power

set_option relaxedAutoImplicit false
set_option autoImplicit false

namespace RecordModel

/-- A binary format: one bit of sign, and so many of exponent and of fraction. -/
structure BinaryFormat where
  exponentBits : Nat
  fractionBits : Nat

namespace BinaryFormat

/-- The format of 32 bits. -/
def single : BinaryFormat := ⟨8, 23⟩

/-- The format of 64 bits. -/
def double : BinaryFormat := ⟨11, 52⟩

/-- The number of bits without the sign. -/
def magnitudeBits (f : BinaryFormat) : Nat := f.exponentBits + f.fractionBits

/-- The number of bits. -/
def width (f : BinaryFormat) : Nat := f.magnitudeBits + 1

/-- The exponent of the unit in the last place of the smallest numbers. -/
def leastExponent (f : BinaryFormat) : Int :=
  2 - pow2 (f.exponentBits - 1) - f.fractionBits

/-- The magnitude of the infinities: every bit of the exponent set and no bit of the fraction. -/
def infinity (f : BinaryFormat) : Nat := (pow2 f.exponentBits - 1) * pow2 f.fractionBits

/-- The magnitude of what is not a number. -/
def quietNaN (f : BinaryFormat) : Nat := f.infinity + pow2 (f.fractionBits - 1)

/-- The greatest finite magnitude. -/
def greatest (f : BinaryFormat) : Nat := f.infinity - 1

end BinaryFormat

/-- A number of the format `f`, as its bits. -/
structure Binary (f : BinaryFormat) where
  bits : BitVec f.width
deriving DecidableEq

/-- A number of 32 bits. -/
abbrev Binary32 := Binary .single

/-- A number of 64 bits. -/
abbrev Binary64 := Binary .double

namespace Binary

variable {f : BinaryFormat}

/-! ### Sign and magnitude -/

/-- The bits without the sign. -/
def magnitude (x : Binary f) : Nat := x.bits.toNat % pow2 f.magnitudeBits

/-- The bit of the sign. -/
def negative (x : Binary f) : Bool := pow2 f.magnitudeBits ≤ x.bits.toNat

/-- The number of the given sign and magnitude. -/
def ofMagnitude (negative : Bool) (m : Nat) : Binary f :=
  ⟨BitVec.ofNat _ (m + if negative then pow2 f.magnitudeBits else 0)⟩

theorem ofMagnitude_toNat (b : Bool) (m : Nat) (h : m < pow2 f.magnitudeBits) :
    (ofMagnitude b m : Binary f).bits.toNat = m + if b then pow2 f.magnitudeBits else 0 := by
  have hw : pow2 f.width = pow2 f.magnitudeBits * 2 := pow2_succ _
  have hlt : (m + if b then pow2 f.magnitudeBits else 0) < pow2 f.width := by
    rw [hw]
    cases b <;> simp <;> omega
  exact Nat.mod_eq_of_lt hlt

theorem ofMagnitude_magnitude (b : Bool) (m : Nat) (h : m < pow2 f.magnitudeBits) :
    (ofMagnitude b m : Binary f).magnitude = m := by
  rw [magnitude, ofMagnitude_toNat b m h]
  cases b <;> simp [Nat.mod_eq_of_lt h]

theorem ofMagnitude_negative (b : Bool) (m : Nat) (h : m < pow2 f.magnitudeBits) :
    (ofMagnitude b m : Binary f).negative = b := by
  rw [negative, ofMagnitude_toNat b m h]
  cases b <;> simp [h]

/-! ### Kinds of numbers and their order -/

/-- Whether the bits stand for no number at all. -/
def isNaN (x : Binary f) : Bool := f.infinity < x.magnitude

/-- Whether the number is finite. -/
def isFinite (x : Binary f) : Bool := x.magnitude < f.infinity

theorem isFinite_iff (x : Binary f) : x.isFinite = true ↔ x.magnitude < f.infinity := by
  simp [isFinite]

theorem isFinite_eq_false_of_isNaN {x : Binary f} (h : x.isNaN = true) : x.isFinite = false := by
  simp [isNaN] at h
  simp [isFinite]
  omega

/-- The place of a number in the order of all numbers; the two zeros share theirs. -/
def order (x : Binary f) : Int := if x.negative then -(x.magnitude : Int) else x.magnitude

/-- Equality of numbers. -/
def same (x y : Binary f) : Bool := !x.isNaN && !y.isNaN && x.order == y.order

/-- Strict order of numbers. -/
def less (x y : Binary f) : Bool := !x.isNaN && !y.isNaN && decide (x.order < y.order)

/-! ### Exact values -/

/-- The field of the exponent. -/
def exponentField (x : Binary f) : Nat := x.magnitude / pow2 f.fractionBits

/-- The field of the fraction. -/
def fraction (x : Binary f) : Nat := x.magnitude % pow2 f.fractionBits

/-- The significand: the fraction, behind a leading one unless the field of the exponent is
zero. -/
def significand (x : Binary f) : Nat :=
  if x.exponentField = 0 then x.fraction else x.fraction + pow2 f.fractionBits

/-- The exponent of the unit in the last place. -/
def exponent (x : Binary f) : Int :=
  f.leastExponent + ((x.exponentField - 1 : Nat) : Int)

example : (⟨0x3ff8000000000000⟩ : Binary64).significand = 3 * pow2 51 := by decide
example : (⟨0x3ff8000000000000⟩ : Binary64).exponent = -52 := by decide
example : (⟨1⟩ : Binary64).exponent = -1074 := by decide
example : less (⟨0xbff0000000000000⟩ : Binary64) ⟨0x8000000000000000⟩ = true := by decide

end Binary

end RecordModel
