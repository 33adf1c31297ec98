/-
**Sets of characters.**

A property of characters, such as "is a letter with case", holds on some hundred stretches of
code points.  `CharSet` keeps the ascending list of the code points where it starts or stops to
hold; a character is in the set exactly when the number of turns at or below it is odd.

Main definitions:

* `CharSet` — the turns of a set;
* `CharSet.contains` — membership.
-/

set_option relaxedAutoImplicit false
set_option autoImplicit false

namespace RecordModel

/-- A set of characters, as the code points where membership turns. -/
structure CharSet where
  /-- The turns, ascending; the first one turns membership on. -/
  turns : List Nat

namespace CharSet

/-- Whether `c` is in the set: an odd number of turns lies at or below it. -/
def contains (s : CharSet) (c : Char) : Bool :=
  (s.turns.takeWhile (· ≤ c.toNat)).length % 2 == 1

end CharSet

end RecordModel
