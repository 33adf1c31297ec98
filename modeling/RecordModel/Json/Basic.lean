/-
**JSON values.**

A JSON value as the rest of the library sees it: a number is either a whole number or a binary
number of 64 bits, and an object is the list of its members in order, each key once.

Main definitions:

* `Json` — the values;
* `Json.get?`, `Json.ofMembers` — a member of an object, and an object from members in order of
  arrival;
* `Json.toInt64?`, `Json.toWord32?`, `Json.toBinary64?` — numbers within a range, and as binary
  numbers;
* `Json.WellFormed` — every object in the value has every key once.

Main results:

* `Json.toInt64?_eq_some_iff` — exactly the whole numbers within the range are taken.
-/

import RecordModel.Binary.Rounding
import RecordModel.Keyed

set_option relaxedAutoImplicit false
set_option autoImplicit false

namespace RecordModel

/-- A JSON value. -/
inductive Json where
  | null
  | boolean (b : Bool)
  | integer (n : Int)
  | float (x : Binary64)
  | string (s : String)
  | array (items : List Json)
  | object (members : List (String × Json))

namespace Json

/-- The object with the given members: a key that comes again replaces the value and keeps the
place. -/
def ofMembers (members : List (String × Json)) : Json := .object (Keyed.ofArrivals members)

/-- The member `key` of an object. -/
def get? (key : String) : Json → Option Json
  | .object members => Keyed.get? key members
  | _ => none

/-! ### Numbers -/

/-- The whole number, if it has at most 64 bits with its sign. -/
def toInt64? : Json → Option Int64
  | .integer n => if -(pow2 63 : Int) ≤ n ∧ n < pow2 63 then some (.ofInt n) else none
  | _ => none

/-- The whole number, if it has at most 32 bits and no sign. -/
def toWord32? : Json → Option Nat
  | .integer n => if 0 ≤ n ∧ n < pow2 32 then some n.toNat else none
  | _ => none

/-- Any number, as the nearest binary number of 64 bits. -/
def toBinary64? : Json → Option Binary64
  | .integer n => some (.nearest (decide (n < 0)) n.natAbs 1)
  | .float x => some x
  | _ => none

/-- Whether the value is a number. -/
def isNumber : Json → Bool
  | .integer _ => true
  | .float _ => true
  | _ => false

/-- Exactly the whole numbers of 64 bits are taken, each as itself. -/
theorem toInt64?_eq_some_iff (j : Json) (k : Int64) :
    j.toInt64? = some k ↔ j = .integer k.toInt := by
  cases j with
  | integer n =>
      rw [Json.integer.injEq]
      constructor
      · intro h
        simp only [toInt64?] at h
        split at h
        · rename_i hr
          rw [← Option.some.inj h, Int64.toInt_ofInt_of_le hr.1 hr.2]
        · exact absurd h (by simp)
      · rintro rfl
        simp only [toInt64?]
        rw [if_pos ⟨Int64.le_toInt k, Int64.toInt_lt k⟩, Int64.ofInt_toInt]
  | _ => simp [toInt64?]

/-! ### Well-formed values -/

mutual

/-- Every object in the value has every key once. -/
def WellFormed : Json → Prop
  | .array items => WellFormedItems items
  | .object members => (Keyed.keys members).Nodup ∧ WellFormedMembers members
  | _ => True

/-- Every value of a list is well-formed. -/
def WellFormedItems : List Json → Prop
  | [] => True
  | j :: rest => j.WellFormed ∧ WellFormedItems rest

/-- Every value among the members is well-formed. -/
def WellFormedMembers : List (String × Json) → Prop
  | [] => True
  | (_, j) :: rest => j.WellFormed ∧ WellFormedMembers rest

end

end Json

end RecordModel
