/-
**Drawing values from a source.**

A number below `r` is drawn by multiplying a random word with `r`: the upper half of the product is
the number, and words whose lower half is too great are passed over, so that every number has the
same share of the words.  Passing over words ends with any source that is random; with one that is
not it ends after `patience` words with a value of the range all the same.

Main definitions:

* `Draw` — draws from a source;
* `Draw.below`, `Draw.between` — whole numbers of a range;
* `Draw.floatBelow` — binary numbers between a bound and its opposite;
* `Draw.chance` — true with a given probability;
* `Draw.text` — letters and digits.

Main results:

* `Draw.below_lt` — what is drawn below `r` is below `r`.
-/

import RecordModel.Binary.Rounding
import RecordModel.Random.Source

set_option relaxedAutoImplicit false
set_option autoImplicit false

namespace RecordModel

/-- A draw from a source of type `σ`. -/
abbrev Draw (σ : Type) := StateM σ

namespace Draw

variable {σ : Type} [RandomSource σ]

/-! ### Words -/

/-- A word of 32 bits. -/
def word32 : Draw σ UInt32 := fun s => RandomSource.word32 s

/-- A word of 64 bits. -/
def word64 : Draw σ UInt64 := fun s => RandomSource.word64 s

/-- Bytes. -/
def bytes (n : Nat) : Draw σ (List UInt8) := fun s => RandomSource.bytes n s

/-- A width of words. -/
inductive Width where
  | w32
  | w64
  | w128

/-- The number of bits of a width. -/
def Width.bits : Width → Nat
  | .w32 => 32
  | .w64 => 64
  | .w128 => 128

/-- A word of the given width; one of 128 bits is two of 64, the lower half first. -/
def word : Width → Draw σ Nat
  | .w32 => do return (← word32).toNat
  | .w64 => do return (← word64).toNat
  | .w128 => do
      let low ← word64
      let high ← word64
      return high.toNat * pow2 64 + low.toNat

/-- How many words are passed over before a draw settles for the least value. -/
def patience : Nat := 1000000

/-! ### Whole numbers -/

/-- The greatest lower half of a product with `r` that is not passed over. -/
def zone (w : Width) (r : Nat) : Nat := r * pow2 (w.bits - 1 - r.log2) - 1

/-- A number below `r`, passing over at most so many words. -/
def belowF (w : Width) (r : Nat) : Nat → Draw σ Nat
  | 0 => return 0
  | tries + 1 => do
      let product := (← word w) * r
      if product % pow2 w.bits ≤ zone w r then return product / pow2 w.bits
      else belowF w r tries

/-- A number below `r`, which is at most the number of words. -/
def below (w : Width) (r : Nat) : Draw σ Nat :=
  if r = pow2 w.bits then word w else belowF w r patience

/-- A number between two numbers, both included. -/
def between (w : Width) (low high : Int) : Draw σ Int := do
  return low + (← below w (high - low + 1).toNat)

theorem word_lt (w : Width) (s : σ) : (word w s).1 < pow2 w.bits := by
  cases w with
  | w32 => exact UInt32.toNat_lt _
  | w64 => exact UInt64.toNat_lt _
  | w128 =>
      have h : ∀ a b : UInt64, a.toNat * pow2 64 + b.toNat < pow2 128 := by
        intro a b
        have h64 : pow2 64 = 18446744073709551616 := rfl
        have h128 : pow2 128 = 340282366920938463463374607431768211456 := rfl
        have := UInt64.toNat_lt a
        have := UInt64.toNat_lt b
        rw [h64, h128]
        omega
      exact h _ _

/-- One try: a word, and its number or the next try. -/
theorem belowF_succ (w : Width) (r tries : Nat) (s : σ) :
    belowF w r (tries + 1) s =
      if (word w s).1 * r % pow2 w.bits ≤ zone w r then
        ((word w s).1 * r / pow2 w.bits, (word w s).2)
      else belowF w r tries (word w s).2 := by
  rw [belowF]
  simp only [bind, StateT.bind]
  rcases word w s with ⟨x, s'⟩
  by_cases h : x * r % pow2 w.bits ≤ zone w r
  · simp only [if_pos h]
    rfl
  · simp only [if_neg h]

theorem belowF_lt (w : Width) (r : Nat) (hr : 0 < r) (tries : Nat) (s : σ) :
    (belowF w r tries s).1 < r := by
  induction tries generalizing s with
  | zero => exact hr
  | succ tries ih =>
      rw [belowF_succ]
      split
      · refine (Nat.div_lt_iff_lt_mul (pow2_pos _)).mpr ?_
        rw [Nat.mul_comm r]
        exact Nat.mul_lt_mul_of_pos_right (word_lt w s) hr
      · exact ih _

theorem below_lt (w : Width) (r : Nat) (hr : 0 < r) (s : σ) : (below w r s).1 < r := by
  unfold below
  split
  · rename_i h
    rw [h]
    exact word_lt w s
  · exact belowF_lt w r hr patience s

theorem between_mem (w : Width) (low high : Int) (h : low ≤ high) (s : σ) :
    low ≤ (between w low high s).1 ∧ (between w low high s).1 ≤ high := by
  have hlt := below_lt w (high - low + 1).toNat (by omega) s
  have he : (between w low high s).1 = low + ((below w (high - low + 1).toNat s).1 : Int) := rfl
  omega

/-! ### Binary numbers -/

/-- A number of the form `k / 2 ^ fractionBits` that is less than one and not negative: the upper
bits of a word. -/
def fraction (w : Width) (f : BinaryFormat) : Draw σ Dyadic := do
  return ⟨(← word w) / pow2 (w.bits - f.fractionBits), -(f.fractionBits : Int)⟩

/-- Twice a number. -/
def span {f : BinaryFormat} (bound : Binary f) : Binary f :=
  .ofDyadic (bound.dyadic.add bound.dyadic)

/-- A number between the opposite of `bound` and `bound`, which is left out: a fraction is stretched
to the range and moved, each step rounded, and passed over if it comes out too great. -/
def floatBelowF {f : BinaryFormat} (w : Width) (bound : Binary f) : Nat → Draw σ (Binary f)
  | 0 => return .ofDyadic bound.dyadic.neg
  | tries + 1 => do
      let stretched : Binary f := .ofDyadic ((← fraction w f).mul (span bound).dyadic)
      let moved : Binary f := .ofDyadic (stretched.dyadic.add bound.dyadic.neg)
      if moved.less bound then return moved else floatBelowF w bound tries

/-- A number between the opposite of `bound` and `bound`, which is left out. -/
def floatBelow {f : BinaryFormat} (w : Width) (bound : Binary f) : Draw σ (Binary f) :=
  floatBelowF w bound patience

/-! ### Choices and texts -/

/-- A fair choice of true and false. -/
def coin : Draw σ Bool := do return pow2 31 ≤ (← word32).toNat

/-- The words of 64 bits below which a draw with the probability `p` is true. -/
def threshold (p : Binary64) : Nat :=
  let e := p.exponent + 64
  if 0 ≤ e then p.significand * pow2 e.toNat else p.significand / pow2 (-e).toNat

/-- True with the probability `p`; certainty needs no draw. -/
def chance (p : Binary64) : Draw σ Bool := do
  if threshold p = pow2 64 then return true else return (← word64).toNat < threshold p

/-- The letters and digits. -/
def alphabet : List Char := "ABCDEFGHIJKLMNOPQRSTUVWXYZabcdefghijklmnopqrstuvwxyz0123456789".toList

/-- A letter or a digit: the upper six bits of a word, passed over if they are too great. -/
def letterF : Nat → Draw σ Char
  | 0 => return 'A'
  | tries + 1 => do
      match alphabet[(← word32).toNat / pow2 26]? with
      | some c => return c
      | none => letterF tries

/-- Letters and digits. -/
def letters : Nat → Draw σ (List Char)
  | 0 => return []
  | n + 1 => do
      let c ← letterF patience
      return c :: (← letters n)

/-- A text of letters and digits. -/
def text (length : Nat) : Draw σ String := do return String.ofList (← letters length)

end Draw

end RecordModel
