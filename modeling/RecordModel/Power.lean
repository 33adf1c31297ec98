/-
**Powers of two and of ten.**

The two powers that the width of words and the places of digits bring with them.

Main definitions:

* `pow2`, `pow10` — the powers.

Main results:

* `pow2_zero`, `pow10_zero`, `pow2_succ`, `pow10_succ` — one power from the one before it;
* `pow2_pos`, `pow10_pos` — no power is zero.
-/

set_option relaxedAutoImplicit false
set_option autoImplicit false

namespace RecordModel

/-- Two to the power of `n`. -/
def pow2 (n : Nat) : Nat := Nat.pow 2 n

/-- Ten to the power of `n`. -/
def pow10 (n : Nat) : Nat := Nat.pow 10 n

theorem pow2_zero : pow2 0 = 1 := rfl

theorem pow10_zero : pow10 0 = 1 := rfl

theorem pow2_succ (n : Nat) : pow2 (n + 1) = pow2 n * 2 := rfl

theorem pow10_succ (n : Nat) : pow10 (n + 1) = pow10 n * 10 := rfl

theorem pow2_pos (n : Nat) : 0 < pow2 n := Nat.pow_pos (by decide)

theorem pow10_pos (n : Nat) : 0 < pow10 n := Nat.pow_pos (by decide)

end RecordModel
