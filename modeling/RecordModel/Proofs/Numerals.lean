/-
**Decimals as they are written.**

A numeral is a number as it is written: perhaps a sign, digits, and perhaps a point with digits
behind it.  Before the point and behind it there may be none, but somewhere there has to be a digit.
The digits together write a whole number, and those behind the point are the scale.

A text is that of at most one numeral, and it is read as a decimal exactly when it is that of a
numeral with a digit whose whole number has 127 bits.  The sign comes after the number, so that the
decimal whose whole number has no opposite is not read.  It has a text all the same: every decimal is
written as a numeral with a digit before the point, with a point only where the scale is positive,
and with a sign only where it is negative.

Main definitions:

* `Decimal.Numeral` — numbers as they are written, with their text;
* `Numeral.magnitude`, `Numeral.scale` — the whole number that the digits write, and the number of
  digits behind the point;
* `Numeral.Writes` — the decimal that a numeral writes.

Main results:

* `Numeral.text_injective` — **a text is that of one numeral at most**;
* `Numeral.parse_text_iff` — the text of a numeral is read as the decimal that it writes, and as
  nothing else;
* `Decimal.exists_numeral_of_parse` — nothing but numerals is read;
* `Decimal.parse_exact` — **the texts that are read, and what they are read as**;
* `Decimal.parse_text` — a decimal whose whole number has an opposite is read back from its text;
* `Decimal.text_exact` — **the text of a decimal, and what is read from it**.
-/

import Mathlib.Data.List.Basic
import Mathlib.Data.List.TakeDrop
import Mathlib.Data.List.TakeWhile
import Mathlib.Data.Nat.Digits.Defs
import Mathlib.Data.Set.List
import RecordModel.Decimal

set_option relaxedAutoImplicit false
set_option autoImplicit false

namespace RecordModel.Decimal

/-! ### Signs -/

/-- The sign in front of a number, if there is one. -/
inductive Sign where
  | none
  | plus
  | minus
deriving DecidableEq

namespace Sign

/-- The sign as it is written. -/
def text : Sign → List Char
  | none => []
  | plus => ['+']
  | minus => ['-']

/-- The sign in front of a text, and what stands behind it. -/
def split : List Char → Sign × List Char
  | '-' :: rest => (minus, rest)
  | '+' :: rest => (plus, rest)
  | cs => (none, cs)

theorem text_append_split (cs : List Char) : (split cs).1.text ++ (split cs).2 = cs := by
  rw [split.eq_def]
  split <;> rfl

/-- In front of a text that has no sign, the sign is what is split off. -/
theorem split_text_append (sign : Sign) {cs : List Char} (h : ∀ c ∈ cs, c ≠ '-' ∧ c ≠ '+') :
    split (sign.text ++ cs) = (sign, cs) := by
  cases sign with
  | minus => rfl
  | plus => rfl
  | none =>
      change split cs = (none, cs)
      rw [split.eq_def]
      split
      · exact absurd rfl (h '-' (List.mem_cons_self ..)).1
      · exact absurd rfl (h '+' (List.mem_cons_self ..)).2
      · rfl

end Sign

theorem parse_eq (cs : List Char) :
    parse cs = parseUnsigned (decide ((Sign.split cs).1 = .minus)) (Sign.split cs).2 := by
  fun_cases Sign.split cs with
  | case1 rest => rfl
  | case2 rest => rfl
  | case3 cs hminus hplus => exact parse.eq_3 cs hminus hplus

/-! ### Digits and the point -/

theorem ne_point_of_isDigit {c : Char} (h : c.isDigit = true) : c ≠ '.' := by
  rintro rfl
  exact absurd h (by decide)

/-- Digits alone have no point behind them. -/
theorem span_digits {ds : List Char} (h : ∀ c ∈ ds, c.isDigit = true) (rest : List Char) :
    (ds ++ '.' :: rest).span (· ≠ '.') = (ds, '.' :: rest) ∧ ds.span (· ≠ '.') = (ds, []) := by
  have hne : ∀ c ∈ ds, decide (c ≠ '.') = true :=
    fun c hc => decide_eq_true (ne_point_of_isDigit (h c hc))
  constructor
  · rw [List.span_eq_takeWhile_dropWhile, List.takeWhile_append_of_pos hne,
      List.dropWhile_append_of_pos hne]
    simp
  · rw [List.span_eq_takeWhile_dropWhile, List.takeWhile_eq_self_iff.mpr hne,
      List.dropWhile_eq_nil_iff.mpr hne]

/-- Digits before and behind the point are read as a decimal when there is a digit, all of them are
digits and the number that they write has 127 bits. -/
theorem ofDigits_eq_some_iff {negative : Bool} {whole fraction : List Char} {d : Decimal} :
    ofDigits negative whole fraction = some d ↔
      whole ++ fraction ≠ [] ∧ (∀ c ∈ whole ++ fraction, c.isDigit = true) ∧
        Nat.ofDigitChars 10 (whole ++ fraction) 0 < pow2 127 ∧
        d.unscaled = (if negative then -(Nat.ofDigitChars 10 (whole ++ fraction) 0 : Int)
          else Nat.ofDigitChars 10 (whole ++ fraction) 0) ∧
        d.scale = fraction.length := by
  constructor
  · intro h
    rw [ofDigits] at h
    split at h
    · cases h
    · rename_i hcheck
      rw [Bool.or_eq_true, not_or, List.isEmpty_iff, Bool.not_eq_true', Bool.not_eq_false,
        List.all_eq_true] at hcheck
      split at h
      · rename_i hlt
        cases h
        exact ⟨hcheck.1, hcheck.2, hlt, rfl, rfl⟩
      · cases h
  · rintro ⟨hne, hdigits, hlt, hunscaled, hscale⟩
    have hcheck :
        ((whole ++ fraction).isEmpty || !(whole ++ fraction).all Char.isDigit) = false := by
      rw [Bool.or_eq_false_iff, List.isEmpty_eq_false_iff, Bool.not_eq_false', List.all_eq_true]
      exact ⟨hne, hdigits⟩
    rw [ofDigits]
    simp only [hcheck, Bool.false_eq_true, if_false, dif_pos hlt]
    obtain ⟨unscaled, scale, fits⟩ := d
    simp only at hunscaled hscale
    simp only [hunscaled, hscale]

/-! ### Numerals -/

/-- A number as it is written. -/
structure Numeral where
  sign : Sign
  whole : List (Fin 10)
  /-- The digits behind the point, if there is a point. -/
  fraction : Option (List (Fin 10))

namespace Numeral

/-- A digit as it is written. -/
def digitChar (d : Fin 10) : Char := Nat.digitChar d.val

/-- Digits as they are written. -/
def digitText (ds : List (Fin 10)) : List Char := ds.map digitChar

/-- The point and the digits behind it, if there is a point. -/
def pointText : Option (List (Fin 10)) → List Char
  | none => []
  | some ds => '.' :: digitText ds

/-- The number without its sign. -/
def body (l : Numeral) : List Char := digitText l.whole ++ pointText l.fraction

/-- The number as it is written. -/
def text (l : Numeral) : List Char := l.sign.text ++ l.body

/-- The digits behind the point. -/
def fractionDigits (l : Numeral) : List (Fin 10) := l.fraction.getD []

/-- All digits, those before the point first. -/
def digits (l : Numeral) : List (Fin 10) := l.whole ++ l.fractionDigits

/-- The whole number that all digits write. -/
def magnitude (l : Numeral) : Nat := Nat.ofDigits 10 (l.digits.reverse.map Fin.val)

/-- The whole number with the sign. -/
def unscaled (l : Numeral) : Int := if l.sign = .minus then -l.magnitude else l.magnitude

/-- The number of digits behind the point. -/
def scale (l : Numeral) : Nat := l.fractionDigits.length

/-! ### Digits -/

theorem isDigit_of_mem_digitText {ds : List (Fin 10)} {c : Char} (h : c ∈ digitText ds) :
    c.isDigit = true := by
  obtain ⟨d, -, rfl⟩ := List.mem_map.mp h
  exact Nat.isDigit_digitChar.trans (decide_eq_true d.isLt)

/-- Every text of digits is that of some digits. -/
theorem exists_digitText {cs : List Char} (h : ∀ c ∈ cs, c.isDigit = true) :
    ∃ ds, digitText ds = cs := by
  have hrange : ∀ c ∈ cs, c ∈ Set.range digitChar := by
    intro c hc
    obtain ⟨hlow, hhigh⟩ := Char.isDigit_iff_toNat.mp (h c hc)
    change 48 ≤ c.toNat at hlow
    change c.toNat ≤ 57 at hhigh
    refine ⟨⟨c.toNat - 48, by omega⟩, Char.toNat_inj.mp ?_⟩
    rw [digitChar, Nat.toNat_digitChar_of_lt_ten (by omega)]
    exact Nat.add_sub_cancel' hlow
  have hlist : cs ∈ Set.range (List.map digitChar) := by
    rw [Set.range_list_map]
    exact hrange
  exact hlist

theorem digitText_injective : Function.Injective digitText := by
  have hdigit : ∀ a b : Fin 10, digitChar a = digitChar b → a = b := by decide
  exact List.map_injective_iff.mpr fun a b => hdigit a b

@[simp] theorem length_digitText (ds : List (Fin 10)) : (digitText ds).length = ds.length :=
  List.length_map _

/-- The text of digits is read as the number that they write, behind the number read before. -/
theorem ofDigitChars_digitText (ds : List (Fin 10)) (n : Nat) :
    Nat.ofDigitChars 10 (digitText ds) n =
      10 ^ ds.length * n + Nat.ofDigits 10 (ds.reverse.map Fin.val) := by
  induction ds generalizing n with
  | nil => simp [digitText]
  | cons d ds ih =>
      have hdigit : (digitChar d).toNat - '0'.toNat = d := by
        rw [digitChar, Nat.toNat_digitChar_of_lt_ten d.isLt]
        exact Nat.add_sub_cancel_left ..
      have hcons : digitText (d :: ds) = digitChar d :: digitText ds := rfl
      rw [hcons, Nat.ofDigitChars_cons, ih, hdigit, List.reverse_cons, List.map_append,
        Nat.ofDigits_append, List.map_singleton, Nat.ofDigits_singleton, List.length_map,
        List.length_reverse, List.length_cons, Nat.pow_succ]
      ring

/-! ### One numeral for a text -/

/-- Behind the sign of a numeral there is no other sign. -/
theorem ne_sign_of_mem_body {l : Numeral} {c : Char} (h : c ∈ l.body) : c ≠ '-' ∧ c ≠ '+' := by
  have hne {c : Char} (hc : c.isDigit = true ∨ c = '.') : c ≠ '-' ∧ c ≠ '+' := by
    constructor <;> (rintro rfl; exact absurd hc (by decide))
  rcases List.mem_append.mp h with h | h
  · exact hne (.inl (isDigit_of_mem_digitText h))
  · cases hf : l.fraction with
    | none =>
        rw [hf] at h
        cases h
    | some ds =>
        rw [hf] at h
        rcases List.mem_cons.mp h with h | h
        · exact hne (.inr h)
        · exact hne (.inl (isDigit_of_mem_digitText h))

theorem split_text (l : Numeral) : Sign.split l.text = (l.sign, l.body) :=
  Sign.split_text_append l.sign fun _ hc => ne_sign_of_mem_body hc

theorem span_body (l : Numeral) :
    l.body.span (· ≠ '.') = (digitText l.whole, pointText l.fraction) := by
  have hdigits : ∀ c ∈ digitText l.whole, c.isDigit = true :=
    fun c hc => isDigit_of_mem_digitText hc
  rw [body]
  cases l.fraction with
  | none => rw [pointText, List.append_nil, (span_digits hdigits []).2]
  | some ds => rw [pointText, (span_digits hdigits _).1]

theorem pointText_injective : Function.Injective pointText := by
  intro a b h
  cases a <;> cases b
  case none.none => rfl
  case some.some ds es => rw [digitText_injective (List.cons.inj h).2]
  all_goals cases h

/-- **A text is that of one numeral at most.** -/
theorem text_injective : Function.Injective text := by
  intro l l' h
  have hsplit : (l.sign, l.body) = (l'.sign, l'.body) := by rw [← split_text, h, split_text]
  obtain ⟨hsign, hbody⟩ := Prod.mk.inj hsplit
  have hspan : (digitText l.whole, pointText l.fraction) =
      (digitText l'.whole, pointText l'.fraction) := by rw [← span_body, hbody, span_body]
  obtain ⟨hwhole, hfraction⟩ := Prod.mk.inj hspan
  cases l
  cases l'
  cases hsign
  cases digitText_injective hwhole
  cases pointText_injective hfraction
  rfl

/-! ### What a numeral writes -/

/-- The numeral writes the decimal: it has a digit, its whole number has 127 bits, and whole number
with sign and scale are those of the decimal. -/
structure Writes (l : Numeral) (d : Decimal) : Prop where
  digits_ne_nil : l.digits ≠ []
  magnitude_lt : l.magnitude < pow2 127
  unscaled : d.unscaled = l.unscaled
  scale : d.scale = l.scale

theorem exists_writes {l : Numeral} (hne : l.digits ≠ []) (hlt : l.magnitude < pow2 127) :
    ∃ d, l.Writes d := by
  have hfits : -(pow2 127 : Int) ≤ l.unscaled ∧ l.unscaled < pow2 127 := by
    rw [Numeral.unscaled]
    split <;> omega
  exact ⟨⟨l.unscaled, l.scale, hfits⟩, hne, hlt, rfl, rfl⟩

theorem digitText_digits (l : Numeral) :
    digitText l.digits = digitText l.whole ++ digitText l.fractionDigits :=
  List.map_append

theorem ofDigitChars_digits (l : Numeral) :
    Nat.ofDigitChars 10 (digitText l.digits) 0 = l.magnitude := by
  rw [ofDigitChars_digitText, Nat.mul_zero, Nat.zero_add, magnitude]

theorem parseUnsigned_body (negative : Bool) (l : Numeral) :
    parseUnsigned negative l.body =
      ofDigits negative (digitText l.whole) (digitText l.fractionDigits) := by
  rw [parseUnsigned, span_body, fractionDigits]
  cases l.fraction <;> rfl

/-- The text of a numeral is read as the decimal that it writes, and as nothing else. -/
theorem parse_text_iff (l : Numeral) (d : Decimal) : parse l.text = some d ↔ l.Writes d := by
  have hdigits : ∀ c ∈ digitText l.digits, c.isDigit = true :=
    fun c hc => isDigit_of_mem_digitText hc
  have hempty : digitText l.digits ≠ [] ↔ l.digits ≠ [] := not_congr List.map_eq_nil_iff
  rw [parse_eq, split_text]
  dsimp only
  rw [parseUnsigned_body, ofDigits_eq_some_iff, ← digitText_digits, ofDigitChars_digits,
    length_digitText, hempty]
  simp only [decide_eq_true_eq]
  constructor
  · rintro ⟨hne, -, hlt, hunscaled, hscale⟩
    exact ⟨hne, hlt, hunscaled, hscale⟩
  · rintro ⟨hne, hlt, hunscaled, hscale⟩
    exact ⟨hne, hdigits, hlt, hunscaled, hscale⟩

end Numeral

/-- Behind the sign, nothing but digits with at most one point is read. -/
theorem exists_body_of_parseUnsigned {negative : Bool} {cs : List Char} {d : Decimal}
    (h : parseUnsigned negative cs = some d) :
    ∃ whole fraction, Numeral.digitText whole ++ Numeral.pointText fraction = cs := by
  have hparts : cs.takeWhile (· ≠ '.') ++ cs.dropWhile (· ≠ '.') = cs :=
    List.takeWhile_append_dropWhile
  rw [parseUnsigned, List.span_eq_takeWhile_dropWhile] at h
  cases hrest : cs.dropWhile (· ≠ '.') with
  | nil =>
      rw [hrest] at h hparts
      obtain ⟨-, hdigits, -⟩ := ofDigits_eq_some_iff.mp h
      obtain ⟨whole, hwhole⟩ := Numeral.exists_digitText hdigits
      exact ⟨whole, none, by rw [hwhole, Numeral.pointText, List.append_nil, hparts]⟩
  | cons c rest =>
      -- what is not passed over begins with the point
      have hpoint : c = '.' := by
        have hhead := List.head?_dropWhile_not (· ≠ '.') cs
        rw [hrest] at hhead
        simpa using hhead
      subst hpoint
      rw [hrest] at h hparts
      obtain ⟨-, hdigits, -⟩ := ofDigits_eq_some_iff.mp h
      obtain ⟨hbefore, hbehind⟩ := List.forall_mem_append.mp hdigits
      obtain ⟨whole, hwhole⟩ := Numeral.exists_digitText hbefore
      obtain ⟨fraction, hfraction⟩ := Numeral.exists_digitText hbehind
      refine ⟨whole, some fraction, ?_⟩
      rw [hwhole, Numeral.pointText, hfraction, hparts]

/-- **Nothing but numerals is read.** -/
theorem exists_numeral_of_parse {cs : List Char} {d : Decimal} (h : parse cs = some d) :
    ∃ l : Numeral, l.text = cs := by
  rw [parse_eq] at h
  obtain ⟨whole, fraction, hbody⟩ := exists_body_of_parseUnsigned h
  refine ⟨⟨(Sign.split cs).1, whole, fraction⟩, ?_⟩
  rw [Numeral.text, Numeral.body, hbody, Sign.text_append_split]

/-- A text is read as a decimal when it is that of a numeral that writes the decimal. -/
theorem parse_iff_writes (cs : List Char) (d : Decimal) :
    parse cs = some d ↔ ∃ l : Numeral, l.text = cs ∧ l.Writes d := by
  constructor
  · intro h
    obtain ⟨l, rfl⟩ := exists_numeral_of_parse h
    exact ⟨l, rfl, (l.parse_text_iff d).mp h⟩
  · rintro ⟨l, rfl, hl⟩
    exact (l.parse_text_iff d).mpr hl

/-- The whole number of what is read has an opposite of 128 bits. -/
theorem unscaled_ne_of_parse {cs : List Char} {d : Decimal} (h : parse cs = some d) :
    d.unscaled ≠ -(pow2 127 : Int) := by
  obtain ⟨l, -, hl⟩ := (parse_iff_writes cs d).mp h
  have hlt := hl.magnitude_lt
  rw [hl.unscaled, Numeral.unscaled]
  split <;> omega

/-- **The texts that are read, and what they are read as.**  A text is read when it is that of a
numeral with a digit, whose whole number has 127 bits; the scale is then the number of digits behind
the point, and the whole number has the opposite sign after a minus.  No text is that of two
numerals. -/
theorem parse_exact (cs : List Char) :
    ((∃ d, parse cs = some d) ↔
      ∃ l : Numeral, l.text = cs ∧ l.digits ≠ [] ∧ l.magnitude ≤ pow2 127 - 1) ∧
    (∀ d, parse cs = some d ↔
      ∃ l : Numeral, l.text = cs ∧ l.digits ≠ [] ∧ l.magnitude ≤ pow2 127 - 1 ∧
        d.scale = l.fractionDigits.length ∧
        d.unscaled = if l.sign = .minus then -(l.magnitude : Int) else l.magnitude) ∧
    Function.Injective Numeral.text := by
  have hpos := pow2_pos 127
  refine ⟨⟨?_, ?_⟩, fun d => ?_, Numeral.text_injective⟩
  · rintro ⟨d, h⟩
    obtain ⟨l, hl, hwrites⟩ := (parse_iff_writes cs d).mp h
    exact ⟨l, hl, hwrites.digits_ne_nil, Nat.le_pred_of_lt hwrites.magnitude_lt⟩
  · rintro ⟨l, hl, hne, hle⟩
    obtain ⟨d, hwrites⟩ := Numeral.exists_writes hne (Nat.lt_of_le_pred hpos hle)
    exact ⟨d, (parse_iff_writes cs d).mpr ⟨l, hl, hwrites⟩⟩
  · rw [parse_iff_writes]
    refine exists_congr fun l => and_congr_right fun _ => ⟨fun h => ?_, ?_⟩
    · exact ⟨h.digits_ne_nil, Nat.le_pred_of_lt h.magnitude_lt, h.scale, h.unscaled⟩
    · rintro ⟨hne, hle, hscale, hunscaled⟩
      exact ⟨hne, Nat.lt_of_le_pred hpos hle, hunscaled, hscale⟩

/-! ### The text of a decimal -/

/-- The text behind the sign. -/
def unsignedText (d : Decimal) : List Char :=
  let digits := Text.padded (d.scale + 1) d.unscaled.natAbs
  let whole := digits.length - d.scale
  if d.scale = 0 then Nat.toDigits 10 d.unscaled.natAbs
  else digits.take whole ++ '.' :: digits.drop whole

theorem text_eq (d : Decimal) :
    d.text = (if d.unscaled < 0 then ['-'] else []) ++ d.unsignedText := by
  unfold text unsignedText
  dsimp only
  split <;> split <;> rfl

/-- There are more digits than stand behind the point. -/
theorem scale_lt_length_padded (d : Decimal) :
    d.scale < (Text.padded (d.scale + 1) d.unscaled.natAbs).length := by
  rw [Text.length_padded]
  exact Nat.lt_of_lt_of_le (Nat.lt_succ_self _) (Nat.le_max_left _ _)

/-- The text behind the sign is that of digits, of which at least one stands before the point and as
many as the scale behind it; there is a point when the scale is positive. -/
theorem exists_body_eq_unsignedText (d : Decimal) :
    ∃ whole fraction, Numeral.digitText whole ++ Numeral.pointText fraction = d.unsignedText ∧
      whole ≠ [] ∧ (fraction.getD []).length = d.scale ∧ (fraction.isSome = true ↔ 0 < d.scale) ∧
      Nat.ofDigitChars 10
        (Numeral.digitText whole ++ Numeral.digitText (fraction.getD [])) 0 = d.unscaled.natAbs := by
  unfold unsignedText
  dsimp only
  split
  · rename_i hscale
    have hdigits : ∀ c ∈ Nat.toDigits 10 d.unscaled.natAbs, c.isDigit = true :=
      fun c hc => Nat.isDigit_of_mem_toDigits (by decide) (by decide) hc
    have hvalue : Nat.ofDigitChars 10 (Nat.toDigits 10 d.unscaled.natAbs) 0 = d.unscaled.natAbs :=
      Nat.ofDigitChars_toDigits (by decide) (by decide)
    obtain ⟨whole, hwhole⟩ := Numeral.exists_digitText hdigits
    refine ⟨whole, none, ?_, ?_, hscale.symm, by simp [hscale], ?_⟩
    · rw [hwhole, Numeral.pointText, List.append_nil]
    · rintro rfl
      exact Nat.toDigits_ne_nil hwhole.symm
    · rw [hwhole]
      exact (congrArg (Nat.ofDigitChars 10 · 0) (List.append_nil _)).trans hvalue
  · rename_i hscale
    have hlen := d.scale_lt_length_padded
    have hdigits : ∀ c ∈ Text.padded (d.scale + 1) d.unscaled.natAbs, c.isDigit = true :=
      fun c hc => Text.isDigit_of_mem_padded hc
    have hvalue := Text.value_padded (d.scale + 1) d.unscaled.natAbs
    generalize Text.padded (d.scale + 1) d.unscaled.natAbs = digits at hlen hdigits hvalue ⊢
    obtain ⟨whole, hwhole⟩ := Numeral.exists_digitText
      fun c hc => hdigits c (List.mem_of_mem_take hc)
    obtain ⟨fraction, hfraction⟩ := Numeral.exists_digitText
      fun c hc => hdigits c (List.mem_of_mem_drop hc)
    refine ⟨whole, some fraction, ?_, ?_, ?_, by simp; omega, ?_⟩
    · rw [Numeral.pointText, hwhole, hfraction]
    · rintro rfl
      have := congrArg List.length hwhole
      simp at this
      omega
    · have := congrArg List.length hfraction
      simp at this
      rw [Option.getD_some]
      omega
    · rw [Option.getD_some, hwhole, hfraction, List.take_append_drop, hvalue]

/-- The text of a decimal is that of a numeral with a digit before the point and as many behind it as
the scale, with a point when the scale is positive and a sign when the decimal is negative. -/
theorem exists_text_eq (d : Decimal) :
    ∃ l : Numeral, l.text = d.text ∧ l.whole ≠ [] ∧ l.fractionDigits.length = d.scale ∧
      (l.fraction.isSome = true ↔ 0 < d.scale) ∧
      l.sign = (if d.unscaled < 0 then .minus else .none) ∧
      l.magnitude = d.unscaled.natAbs := by
  obtain ⟨whole, fraction, hbody, hwhole, hlength, hpoint, hvalue⟩ := d.exists_body_eq_unsignedText
  let l : Numeral := ⟨if d.unscaled < 0 then .minus else .none, whole, fraction⟩
  refine ⟨l, ?_, hwhole, hlength, hpoint, rfl, ?_⟩
  · rw [text_eq, ← hbody]
    change (if d.unscaled < 0 then Sign.minus else Sign.none).text ++ _ = _
    split <;> rfl
  · rw [← Numeral.ofDigitChars_digits, Numeral.digitText_digits]
    exact hvalue

/-- A decimal is read back from its text, unless its whole number has no opposite of 128 bits. -/
theorem parse_text (d : Decimal) (h : d.unscaled ≠ -(pow2 127 : Int)) :
    parse d.text = some d := by
  obtain ⟨l, htext, hwhole, hlength, -, hsign, hmagnitude⟩ := d.exists_text_eq
  have hfits := d.fits
  refine (parse_iff_writes _ d).mpr ⟨l, htext, ?_, ?_, ?_, hlength.symm⟩
  · exact List.append_ne_nil_of_left_ne_nil hwhole _
  · rw [hmagnitude]
    omega
  · rw [Numeral.unscaled, hsign, hmagnitude]
    split
    · rw [if_pos rfl]
      omega
    · rw [if_neg Sign.noConfusion]
      omega

end RecordModel.Decimal
