/-
**Draws of decimals.**

A decimal of a precision and a scale has as many digits behind the point as the scale, and its whole
number is below the power of ten of the precision.  The draw of one asks for a whole number between
the greatest such number and its opposite.  The power has to fit 128 bits with a sign; where it does
not, which is from a precision of 39 on, nothing is drawn.

A draw between two numbers can come to any number between them.  The words of some source are
multiplied to just above the number, and such a word is never passed over.  What is drawn for a
precision and a scale is therefore neither more nor less than what conforms to them.

Main results:

* `Descriptor.accepts_decimal_iff` — the decimals of a precision and a scale;
* `Draw.exists_between` — every number of a range is drawn with some source;
* `Generator.exists_logical_run` — what is drawn conforms;
* `Generator.exists_decimal_drawn` — what conforms is drawn with some source;
* `Generator.decimal_draws_exact` — **the decimals that are drawn are those that conform**, and none
  is drawn for a precision that is too great.
-/

import RecordModel.Proofs.Draws

set_option relaxedAutoImplicit false
set_option autoImplicit false

namespace RecordModel

open Stateful

/-! ### Decimals of a precision and a scale -/

/-- A decimal conforms when it has the scale and its whole number lies between the greatest number
of so many digits and its opposite. -/
theorem Descriptor.accepts_decimal_iff {precision scale : Nat} (hp : 0 < precision)
    (h : scale ≤ precision) (d : Decimal) :
    accepts (.logical (.decimal precision scale)) (.decimal d) = true ↔
      d.scale = scale ∧ d.unscaled.natAbs ≤ pow10 precision - 1 := by
  have hpos := pow10_pos precision
  rw [accepts, Logical.accepts, Bool.and_eq_true, beq_iff_eq, decide_eq_true_eq, d.digits_le_iff _ hp]
  constructor
  · rintro ⟨hs, hlt, -⟩
    exact ⟨hs, Nat.le_pred_of_lt hlt⟩
  · rintro ⟨hs, hle⟩
    exact ⟨hs, Nat.lt_of_le_pred hpos hle, hs.trans_le h⟩

/-! ### Every number of a range -/

namespace Draw

/-- Every word is the next one of some source. -/
theorem exists_source_word (w : Width) {x : Nat} (hx : x < pow2 w.bits) :
    ∃ s : SplitMix, (word w s).1 = x := by
  have h32 : pow2 32 = 4294967296 := rfl
  have h64 : pow2 64 = 18446744073709551616 := rfl
  have hword {n : Nat} (hn : n < pow2 64) : (UInt64.ofNat n).toNat = n :=
    UInt64.toNat_ofNat_of_lt hn
  cases w with
  | w32 =>
      change x < pow2 32 at hx
      refine ⟨⟨[UInt64.ofNat x], 0⟩, ?_⟩
      change (UInt64.ofNat x).toUInt32.toNat = x
      rw [UInt64.toNat_toUInt32, hword (by omega)]
      exact Nat.mod_eq_of_lt hx
  | w64 => exact ⟨⟨[UInt64.ofNat x], 0⟩, hword hx⟩
  | w128 =>
      have hhigh : x / pow2 64 < pow2 64 := (Nat.div_lt_iff_lt_mul (pow2_pos 64)).mpr hx
      have hlow : x % pow2 64 < pow2 64 := Nat.mod_lt _ (pow2_pos 64)
      refine ⟨⟨[UInt64.ofNat (x % pow2 64), UInt64.ofNat (x / pow2 64)], 0⟩, ?_⟩
      change (UInt64.ofNat (x / pow2 64)).toNat * pow2 64 + (UInt64.ofNat (x % pow2 64)).toNat = x
      rw [hword hhigh, hword hlow, Nat.div_add_mod']

/-- The least word whose product with `r` reaches `k` times the number of words has `k` for the
upper half of the product, and less than `r` for the lower one. -/
theorem exists_product {words r k : Nat} (hk : k < r) (hr : r ≤ words) :
    ∃ x < words, x * r / words = k ∧ x * r % words < r := by
  have hwords : 0 < words := by omega
  have hpos : 0 < r := by omega
  obtain ⟨x, hlow, hhigh⟩ : ∃ x, k * words ≤ x * r ∧ x * r < k * words + r := by
    refine ⟨(k * words + r - 1) / r, ?_, ?_⟩
    · have := Nat.div_add_mod' (k * words + r - 1) r
      have := Nat.mod_lt (k * words + r - 1) hpos
      omega
    · have := Nat.div_mul_le_self (k * words + r - 1) r
      omega
  have hnext : (k + 1) * words ≤ r * words := Nat.mul_le_mul_right _ hk
  have hdiv : x * r / words = k := by
    refine Nat.div_eq_of_lt_le hlow ?_
    rw [Nat.succ_mul]
    omega
  refine ⟨x, ?_, hdiv, ?_⟩
  · refine Nat.lt_of_mul_lt_mul_right (a := r) ?_
    rw [Nat.succ_mul] at hnext
    rw [Nat.mul_comm words]
    omega
  · have := Nat.div_add_mod' (x * r) words
    rw [hdiv] at this
    omega

theorem le_zone {w : Width} {r low : Nat} (h : low < r) : low ≤ zone w r := by
  have hle : r ≤ r * pow2 (w.bits - 1 - r.log2) := Nat.le_mul_of_pos_right _ (pow2_pos _)
  rw [zone]
  omega

/-- Every number below `r` is drawn with some source. -/
theorem exists_below (w : Width) {r k : Nat} (hk : k < r) (hr : r ≤ pow2 w.bits) :
    ∃ s : SplitMix, (below w r s).1 = k := by
  by_cases hall : r = pow2 w.bits
  · obtain ⟨s, hs⟩ := exists_source_word w (hk.trans_le hr)
    exact ⟨s, by rw [below, if_pos hall, hs]⟩
  · obtain ⟨x, hx, hdiv, hmod⟩ := exists_product hk hr
    obtain ⟨s, hs⟩ := exists_source_word w hx
    obtain ⟨tries, htries⟩ := Nat.exists_eq_succ_of_ne_zero (show patience ≠ 0 by decide)
    refine ⟨s, ?_⟩
    rw [below, if_neg hall, htries, belowF_succ, hs, if_pos (le_zone hmod)]
    exact hdiv

/-- **Every number of a range is drawn with some source.** -/
theorem exists_between (w : Width) {low high n : Int} (hn : low ≤ n ∧ n ≤ high)
    (hwidth : high - low + 1 ≤ pow2 w.bits) : ∃ s : SplitMix, (between w low high s).1 = n := by
  obtain ⟨s, hs⟩ := exists_below w (r := (high - low + 1).toNat) (k := (n - low).toNat)
    (by omega) (by omega)
  refine ⟨s, ?_⟩
  have he : (between w low high s).1 = low + ((below w (high - low + 1).toNat s).1 : Int) := rfl
  rw [he, hs]
  omega

end Draw

/-! ### Decimals that are drawn -/

namespace Generator

variable {σ : Type} [RandomSource σ]

/-- What is drawn conforms. -/
theorem exists_logical_run {precision scale : Nat} (hp : 0 < precision) (h : scale ≤ precision)
    (hmost : precision ≤ mostPrecision) (settings : Settings) (position : Position)
    (st : GeneratorState σ) :
    ∃ (d : Decimal) (source : σ),
      Draw.between .w128 (-((pow10 precision : Int) - 1)) (pow10 precision - 1) st.source =
        (d.unscaled, source) ∧
      d.scale = scale ∧
      Descriptor.accepts (.logical (.decimal precision scale)) (.decimal d) = true ∧
      (logical settings position (.decimal precision scale)).run st =
        (.ok (.decimal d), { st with source }) := by
  obtain ⟨d, source, hdraw, hd, hscale, hrun⟩ := exists_decimal_run h hmost position st
  refine ⟨d, source, hdraw, hscale, ?_, ?_⟩
  · exact (Descriptor.accepts_decimal_iff hp h d).mpr ⟨hscale, hd⟩
  · rw [logical, run_map, hrun]

/-- **What conforms is drawn with some source.** -/
theorem exists_decimal_drawn {precision scale : Nat} (h : scale ≤ precision)
    (hmost : precision ≤ mostPrecision) (position : Position) (registry : Registry) {d : Decimal}
    (hscale : d.scale = scale) (hd : d.unscaled.natAbs ≤ pow10 precision - 1) :
    ∃ (source : SplitMix) (st : GeneratorState SplitMix),
      (decimal precision scale position).run ⟨registry, source⟩ = (.ok d, st) := by
  have hpos := pow10_pos precision
  have hbits := pow10_lt_pow2_iff.mpr hmost
  have hwords : pow2 128 = pow2 127 * 2 := pow2_succ 127
  -- there are fewer numbers of so many digits than words
  have hwidth : ((pow10 precision : Int) - 1) - -((pow10 precision : Int) - 1) + 1 ≤
      pow2 Draw.Width.w128.bits := by
    change _ ≤ ((pow2 128 : Nat) : Int)
    omega
  obtain ⟨source, hsource⟩ := Draw.exists_between .w128 (n := d.unscaled) (by omega) hwidth
  obtain ⟨d', source', hdraw, -, hscale', hrun⟩ :=
    exists_decimal_run h hmost position (⟨registry, source⟩ : GeneratorState SplitMix)
  have hunscaled : d'.unscaled = d.unscaled := by rw [← hsource, hdraw]
  have hd' : d' = d := by
    cases d
    cases d'
    cases hunscaled
    cases hscale.trans hscale'.symm
    rfl
  exact ⟨source, _, hd' ▸ hrun⟩

/-- **The decimals that are drawn are those that conform.**  A decimal conforms when it has the
scale and its whole number lies between the greatest one of so many digits and its opposite.  The
power of ten that gives these bounds fits 128 bits up to a precision of 38.  Up to there, the draw
is that of a whole number between the bounds, it never fails, and what is drawn with some source is
what conforms.  Above, the draw fails and changes nothing. -/
theorem decimal_draws_exact {precision scale : Nat} (h : scale ≤ precision) (settings : Settings)
    (position : Position) :
    (0 < precision → ∀ d : Decimal,
      Descriptor.accepts (.logical (.decimal precision scale)) (.decimal d) = true ↔
        d.scale = scale ∧ d.unscaled.natAbs ≤ pow10 precision - 1) ∧
    (pow10 precision < pow2 127 ↔ precision ≤ 38) ∧
    (0 < precision → precision ≤ 38 →
      (∀ (σ : Type) [RandomSource σ] (st : GeneratorState σ), ∃ (d : Decimal) (source : σ),
        Draw.between .w128 (-((pow10 precision : Int) - 1)) (pow10 precision - 1) st.source =
          (d.unscaled, source) ∧
        d.scale = scale ∧
        Descriptor.accepts (.logical (.decimal precision scale)) (.decimal d) = true ∧
        (logical settings position (.decimal precision scale)).run st =
          (.ok (.decimal d), { st with source })) ∧
      ∀ (registry : Registry) (v : Value),
        Descriptor.accepts (.logical (.decimal precision scale)) v = true ↔
          ∃ (source : SplitMix) (st : GeneratorState SplitMix),
            (logical settings position (.decimal precision scale)).run ⟨registry, source⟩ =
              (.ok v, st)) ∧
    (39 ≤ precision → ∀ (σ : Type) [RandomSource σ] (st : GeneratorState σ),
      (logical settings position (.decimal precision scale)).run st =
        (.error (position.failure (.precisionTooGreat precision)), st)) := by
  refine ⟨fun hp d => Descriptor.accepts_decimal_iff hp h d, pow10_lt_pow2_iff,
    fun hp hmost => ⟨?_, fun registry v => ⟨fun hv => ?_, ?_⟩⟩, fun hmost σ _ st => ?_⟩
  · exact fun σ _ st => exists_logical_run hp h hmost settings position st
  · cases v with
    | decimal d =>
        obtain ⟨hscale, hd⟩ := (Descriptor.accepts_decimal_iff hp h d).mp hv
        obtain ⟨source, st, hrun⟩ := exists_decimal_drawn h hmost position registry hscale hd
        exact ⟨source, st, by rw [logical, run_map, hrun]⟩
    | _ => cases hv
  · rintro ⟨source, st, hrun⟩
    obtain ⟨d, _, -, -, hd, hrun'⟩ :=
      exists_logical_run hp h hmost settings position ⟨registry, source⟩
    cases hrun.symm.trans hrun'
    exact hd
  · rw [logical, run_map, decimal_run_of_lt h hmost]

/-- The greatest decimal of 38 digits is drawn with some source, and none of 39 digits is. -/
theorem greatest_decimal_drawn :
    (∃ d : Decimal, d.unscaled = (pow10 38 : Int) - 1 ∧ d.scale = 2 ∧
      Descriptor.accepts (.logical (.decimal 38 2)) (.decimal d) = true ∧
      ∃ (source : SplitMix) (st : GeneratorState SplitMix),
        (logical {} ⟨"Money", some "amount"⟩ (.decimal 38 2)).run ⟨Registry.empty, source⟩ =
          (.ok (.decimal d), st)) ∧
    ((logical {} ⟨"Money", some "amount"⟩ (.decimal 39 2)).run
        (⟨Registry.empty, ⟨[], 0⟩⟩ : GeneratorState SplitMix)).1 =
      .error (.error (.generation "Money" (some "amount") (.precisionTooGreat 39))) := by
  obtain ⟨hconforms, -, hdrawn, -⟩ :=
    decimal_draws_exact (show 2 ≤ 38 by decide) {} ⟨"Money", some "amount"⟩
  obtain ⟨-, -, -, hfails⟩ :=
    decimal_draws_exact (show 2 ≤ 39 by decide) {} ⟨"Money", some "amount"⟩
  let d : Decimal := ⟨(pow10 38 : Int) - 1, 2, by decide +kernel⟩
  have hd : Descriptor.accepts (.logical (.decimal 38 2)) (.decimal d) = true :=
    (hconforms (by decide) d).mpr ⟨rfl, by decide +kernel⟩
  refine ⟨⟨d, rfl, rfl, hd, ?_⟩, ?_⟩
  · exact ((hdrawn (by decide) (by decide)).2 Registry.empty _).mp hd
  · rw [hfails (by decide) SplitMix]
    rfl

end Generator

end RecordModel
