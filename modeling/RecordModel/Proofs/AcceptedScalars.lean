/-
**What is kept of accepted scalars.**

A scalar may be written in more ways than one, and only one of them is its encoding.  What a text or
a number is taken for is not always of the exact shape of the type: a time of day may have a
fraction of a unit, it may lie in a leap second, and a number may be too great for 32 bits.  The
encoding is nevertheless that of a value of the exact shape, with two exceptions: the leap second
that ends the day has the number of no time, and what is not finite is written as null.

Main definitions:

* `Json.InRange` — the values that a text can stand for;
* `DeclaredType.LosesScalar` — the two exceptions.

Main results:

* `Json.inRange_of_parse` — what is read from a text is in range;
* `TimeOfDay.exists_whole`, `Instant.exists_whole` — a time or an instant with the same number of
  units that is whole;
* `Conversion.scalar_kept` — **the encoding of an accepted scalar is that of one of the exact
  shape**, unless the scalar is an exception;
* `Conversion.scalar_lost` — the encoding of an exception is not accepted.
-/

import RecordModel.Json.Reader
import RecordModel.Proofs.ReadBack

set_option relaxedAutoImplicit false
set_option autoImplicit false

namespace RecordModel

/-! ### Values in range -/

/-- Whole numbers fit 64 bits, with a sign or without one, and other numbers are finite. -/
inductive Json.InRange : Json → Prop
  | null : InRange .null
  | boolean {b : Bool} : InRange (.boolean b)
  | integer {n : Int} : -(pow2 63 : Int) ≤ n → n < pow2 64 → InRange (.integer n)
  | float {x : Binary64} : x.isFinite = true → InRange (.float x)
  | string {s : String} : InRange (.string s)
  | array {items : List Json} : (∀ j ∈ items, InRange j) → InRange (.array items)
  | object {members : List (String × Json)} :
      (∀ m ∈ members, InRange m.2) → InRange (.object members)

namespace Json

/-- A binary number is written with a finite one. -/
theorem inRange_float? {l : NumberLiteral} {j : Json} (h : l.float? = some j) : j.InRange := by
  rw [NumberLiteral.float?] at h
  obtain ⟨x, -, hx⟩ := Option.bind_eq_some_iff.mp h
  split at hx
  · rename_i hfinite
    cases hx
    rw [Binary.isFinite_iff] at hfinite
    refine .float ?_
    rw [Binary.isFinite_iff, Binary.ofMagnitude_magnitude _ _
      (hfinite.trans (Binary.infinity_lt _))]
    exact hfinite
  · cases hx

/-- A number is in range. -/
theorem inRange_value? {l : NumberLiteral} {j : Json} (h : l.value? = some j) : j.InRange := by
  rw [NumberLiteral.value?.eq_def] at h
  have hpow : pow2 63 ≤ pow2 64 := by decide
  split at h
  · dsimp only at h
    split at h
    · split at h
      · rename_i hn
        cases h
        exact .integer (by omega) (by omega)
      · exact inRange_float? h
    · split at h
      · cases h
        exact .integer (by omega) (by omega)
      · exact inRange_float? h
  · exact inRange_float? h

mutual

/-- The value of a written tree is in range. -/
theorem inRange_ofWritten {depth : Nat} {w : Written} {j : Json} (h : ofWritten depth w = some j) :
    j.InRange := by
  cases w with
  | null =>
      cases h
      exact .null
  | boolean b =>
      cases h
      exact .boolean
  | number l => exact inRange_value? h
  | string units =>
      obtain ⟨s, -, rfl⟩ := Option.map_eq_some_iff.mp h
      exact .string
  | array items =>
      cases depth with
      | zero => cases h
      | succ depth =>
          obtain ⟨js, hjs, rfl⟩ := Option.map_eq_some_iff.mp h
          exact .array (inRange_ofWrittenItems hjs)
  | object members =>
      cases depth with
      | zero => cases h
      | succ depth =>
          obtain ⟨ms, hms, rfl⟩ := Option.map_eq_some_iff.mp h
          exact .object fun m hm => inRange_ofWrittenMembers hms m (Keyed.mem_ofArrivals hm)

/-- The values of written items are in range. -/
theorem inRange_ofWrittenItems {depth : Nat} {ws : List Written} {js : List Json}
    (h : ofWrittenItems depth ws = some js) : ∀ j ∈ js, j.InRange := by
  cases ws with
  | nil =>
      cases h
      exact nofun
  | cons w rest =>
      obtain ⟨j, hj, h⟩ := Option.bind_eq_some_iff.mp h
      obtain ⟨js', hjs, h⟩ := Option.bind_eq_some_iff.mp h
      cases h
      exact List.forall_mem_cons.mpr ⟨inRange_ofWritten hj, inRange_ofWrittenItems hjs⟩

/-- The values of written members are in range. -/
theorem inRange_ofWrittenMembers {depth : Nat} {ws : List (List TextUnit × Written)}
    {ms : List (String × Json)} (h : ofWrittenMembers depth ws = some ms) :
    ∀ m ∈ ms, m.2.InRange := by
  cases ws with
  | nil =>
      cases h
      exact nofun
  | cons w rest =>
      obtain ⟨key, w⟩ := w
      obtain ⟨k, -, h⟩ := Option.bind_eq_some_iff.mp h
      obtain ⟨j, hj, h⟩ := Option.bind_eq_some_iff.mp h
      obtain ⟨ms', hms, h⟩ := Option.bind_eq_some_iff.mp h
      cases h
      exact List.forall_mem_cons.mpr ⟨inRange_ofWritten hj, inRange_ofWrittenMembers hms⟩

end

/-- **What is read from a text is in range.** -/
theorem inRange_of_parse {text : String} {j : Json} (h : parse text = some j) : j.InRange := by
  obtain ⟨w, -, hw⟩ := Option.bind_eq_some_iff.mp h
  exact inRange_ofWritten hw

end Json

/-! ### Numbers that are not finite -/

namespace Binary

variable {f : BinaryFormat}

theorem nearest_isFinite {x : Binary f} (hx : x.isFinite = true) {num den : Nat} (hd : 0 < den)
    (h : (num : ℚ) / den ≤ x.size) (negative : Bool) :
    (nearest negative num den : Binary f).isFinite = true := by
  have hle := nearestMagnitude_le_magnitude hd x h
  have hinfinity := infinity_lt f
  rw [isFinite_iff] at hx ⊢
  rw [nearest, ofMagnitude_magnitude _ _ (by omega)]
  omega

/-- What is not finite is not finite when it is widened. -/
theorem widen_isFinite_eq_false {x : Binary32} (hx : x.isFinite = false) :
    x.widen.isFinite = false := by
  have hmagnitude {m : Nat} (hm : m < pow2 BinaryFormat.double.magnitudeBits)
      (hle : BinaryFormat.double.infinity ≤ m) (negative : Bool) :
      (ofMagnitude negative m : Binary64).isFinite = false := by
    rw [isFinite, ofMagnitude_magnitude _ _ hm]
    exact decide_eq_false (by omega)
  rw [widen, convert]
  split
  · exact hmagnitude (by decide) (by decide) _
  · rw [if_neg (by simp [hx])]
    exact hmagnitude (by decide) (by decide) _

end Binary

/-- A number in range is a finite binary number. -/
theorem Json.toBinary64?_isFinite {j : Json} (hj : j.InRange) {x : Binary64}
    (h : j.toBinary64? = some x) : x.isFinite = true := by
  cases hj with
  | @integer n hlow hhigh =>
      cases h
      have hle : n.natAbs ≤ pow2 64 := by
        have hpow : pow2 63 ≤ pow2 64 := by decide
        omega
      refine Binary.nearest_isFinite (x := ⟨0x43f0000000000000⟩) (by decide) Nat.one_pos ?_ _
      rw [Nat.cast_one, div_one, Binary.size,
        show (⟨0x43f0000000000000⟩ : Binary64).significand = pow2 52 by decide,
        show (⟨0x43f0000000000000⟩ : Binary64).exponent = 12 by decide]
      calc (n.natAbs : ℚ) ≤ (pow2 64 : Nat) := by exact_mod_cast hle
        _ = (pow2 52 : Nat) * 2 ^ (12 : Int) := by
          rw [cast_pow2, cast_pow2]
          norm_num
  | float hx =>
      cases h
      exact hx
  | _ => cases h

/-! ### Times of day -/

namespace TimeOfDay

variable {perSecond : Nat} (hd : perSecond * (1000000000 / perSecond) = 1000000000)

include hd

/-- The units of a time end within the day unless it is in the leap second that ends the day. -/
theorem units_lt_day_iff {t : TimeOfDay} :
    t.units perSecond < 86400 * perSecond ↔ ¬ (1000000000 ≤ t.nanos ∧ t.seconds = 86399) := by
  constructor
  · rintro hlt ⟨hnanos, hseconds⟩
    have hsecond : perSecond ≤ t.nanos / (1000000000 / perSecond) := by
      rw [Nat.le_div_iff_mul_le (rate_pos hd).2, hd]
      exact hnanos
    rw [units, hseconds] at hlt
    omega
  · intro h
    have hseconds := t.seconds_lt
    exact units_lt_day hd (by omega)

theorem exists_whole {t : TimeOfDay} (h : ¬ (1000000000 ≤ t.nanos ∧ t.seconds = 86399)) :
    ∃ t' : TimeOfDay, t'.Whole perSecond ∧ t'.units perSecond = t.units perSecond := by
  have hlt := (units_lt_day_iff hd).mpr h
  obtain ⟨t', ht'⟩ := (exists_ofUnits?_iff hd (n := t.units perSecond)).mpr
    ⟨Int.natCast_nonneg _, by exact_mod_cast hlt⟩
  obtain ⟨hwhole, hunits⟩ := (ofUnits?_eq_some_iff hd).mp ht'
  exact ⟨t', hwhole, by exact_mod_cast hunits.symm⟩

end TimeOfDay

/-! ### Instants -/

namespace Date

/-- A date of a year with four digits. -/
theorem day_le_of_ofCivil? {year month day : Nat} {d : Date} (hyear : year < 10000)
    (h : ofCivil? year month day = some d) : d.day ≤ 2932897 := by
  rw [ofCivil?] at h
  split at h
  · rename_i hcivil
    have hdays : daysInMonth year month ≤ 31 := by
      unfold daysInMonth
      repeat' split
      all_goals decide
    rw [ofDay?_eq_some_iff] at h
    rw [← h, dayOf]
    split <;> split <;> omega
  · cases h

end Date

namespace Instant

/-- An instant before the last day of the calendar has the units of a whole one. -/
theorem exists_whole {perSecond : Nat}
    (hd : perSecond * (1000000000 / perSecond) = 1000000000) {i : Instant}
    (h : i.date.day < 95026236) :
    ∃ i' : Instant, i'.time.Whole perSecond ∧ i'.units perSecond = i.units perSecond := by
  obtain ⟨hp, -⟩ := rate_pos hd
  have hcalendar := i.date.in_calendar
  have hseconds := i.time.seconds_lt
  have hnanos := TimeOfDay.nanos_div_lt hd 2 i.time.nanos_lt
  -- a leap second counts as one more
  have hquotient : i.units perSecond / perSecond =
      i.unixSeconds + (i.time.nanos / (1000000000 / perSecond) / perSecond : Nat) := by
    rw [units, Int.add_comm, Int.add_mul_ediv_right _ _ (by omega), Int.add_comm,
      Int.natCast_ediv _ perSecond]
  have hleap : i.time.nanos / (1000000000 / perSecond) / perSecond < 2 := by
    rw [Nat.div_lt_iff_lt_mul hp]
    exact hnanos
  obtain ⟨i', hi'⟩ := (exists_ofUnits?_iff hd (n := i.units perSecond)).mpr (by
    rw [hquotient, unixSeconds]
    generalize i.time.nanos / (1000000000 / perSecond) / perSecond = leap at hleap
    omega)
  obtain ⟨hwhole, hunits⟩ := (ofUnits?_eq_some_iff hd).mp hi'
  exact ⟨i', hwhole, hunits.symm⟩

/-- The distance to universal time is less than a day. -/
theorem natAbs_lt_of_parseOffset {cs : List Char} {offset : Int}
    (h : parseOffset cs = some offset) : offset.natAbs < 86400 := by
  rw [parseOffset.eq_def] at h
  split at h
  case h_1 | h_2 =>
    cases h
    decide
  case h_3 =>
    dsimp only at h
    split at h
    case h_4 => cases h
    all_goals
      obtain ⟨negative, -, h⟩ := Option.bind_eq_some_iff.mp h
      obtain ⟨⟨hours, rest⟩, -, h⟩ := Option.bind_eq_some_iff.mp h
      dsimp only at h
      split at h
      case h_2 => cases h
      obtain ⟨⟨minutes, rest⟩, -, h⟩ := Option.bind_eq_some_iff.mp h
      dsimp only at h
      split at h
      case isFalse => cases h
      cases h
      split <;> omega
  case h_4 => cases h

/-- The parts of a text that holds an instant: its year has four digits. -/
theorem exists_of_parse {cs : List Char} {i : Instant} (h : parse cs = some i) :
    ∃ (year month day : Nat) (date : Date) (time : TimeOfDay) (offset : Int),
      year < 10000 ∧ offset.natAbs < 86400 ∧ Date.ofCivil? year month day = some date ∧
      ofUnix? (date.day * 86400 + time.seconds - offset) time.nanos = some i := by
  rw [parse] at h
  obtain ⟨⟨year, rest⟩, hyear, h⟩ := Option.bind_eq_some_iff.mp h
  dsimp only at h
  split at h
  case h_2 => cases h
  obtain ⟨⟨month, rest⟩, -, h⟩ := Option.bind_eq_some_iff.mp h
  dsimp only at h
  split at h
  case h_2 => cases h
  obtain ⟨⟨day, rest⟩, -, h⟩ := Option.bind_eq_some_iff.mp h
  dsimp only at h
  split at h
  case h_2 => cases h
  split at h
  case isFalse => cases h
  obtain ⟨⟨hour, rest⟩, -, h⟩ := Option.bind_eq_some_iff.mp h
  dsimp only at h
  split at h
  case h_2 => cases h
  obtain ⟨⟨minute, rest⟩, -, h⟩ := Option.bind_eq_some_iff.mp h
  dsimp only at h
  split at h
  case h_2 => cases h
  obtain ⟨⟨second, rest⟩, -, h⟩ := Option.bind_eq_some_iff.mp h
  obtain ⟨⟨nanos, rest⟩, -, h⟩ := Option.bind_eq_some_iff.mp h
  obtain ⟨offset, hoffset, h⟩ := Option.bind_eq_some_iff.mp h
  obtain ⟨date, hdate, h⟩ := Option.bind_eq_some_iff.mp h
  obtain ⟨time, -, h⟩ := Option.bind_eq_some_iff.mp h
  exact ⟨year, month, day, date, time, offset, Text.scanNumber_lt hyear,
    natAbs_lt_of_parseOffset hoffset, hdate, h⟩

theorem day_lt_of_parse {cs : List Char} {i : Instant} (h : parse cs = some i) :
    i.date.day < 95026236 := by
  obtain ⟨year, month, day, date, time, offset, hyear, hoffset, hdate, hunix⟩ := exists_of_parse h
  have hday := Date.day_le_of_ofCivil? hyear hdate
  have hseconds := time.seconds_lt
  have hunix := (ofUnix?_eq_some_iff.mp hunix).1
  rw [unixSeconds] at hunix
  omega

end Instant

/-! ### Accepted scalars -/

/-- The scalars whose encoding the type does not take: a time in the leap second that ends the day,
and a number that is not finite. -/
def DeclaredType.LosesScalar : DeclaredType → Value → Prop
  | .timeMillis, .timeMillis t => 1000000000 ≤ t.nanos ∧ t.seconds = 86399
  | .timeMicros, .timeMicros t => 1000000000 ≤ t.nanos ∧ t.seconds = 86399
  | .float32, .float32 x => x.isFinite = false
  | _, _ => False

namespace Conversion

open DeclaredType

theorem exists_whole_of_instantOf? {perSecond : Nat}
    (hd : perSecond * (1000000000 / perSecond) = 1000000000) {raw : Json} {i : Instant}
    (h : instantOf? perSecond raw = some i) :
    ∃ i' : Instant, i'.time.Whole perSecond ∧ i'.units perSecond = i.units perSecond := by
  rw [instantOf?.eq_def] at h
  split at h
  · exact Instant.exists_whole hd (Instant.day_lt_of_parse h)
  · obtain ⟨n, -, hn⟩ := Option.bind_eq_some_iff.mp h
    exact ⟨i, ((Instant.ofUnits?_eq_some_iff hd).mp hn).1, rfl⟩

/-- **The encoding of an accepted scalar is that of a scalar of the exact shape**, unless the type
does not take it. -/
theorem scalar_kept {type : DeclaredType} {raw : Json} {v : Value} (hraw : raw.InRange)
    (h : scalar type raw = .ok (some v)) (hkept : ¬ type.LosesScalar v) :
    ∃ v', type.KeepsScalar v' ∧ v' ≠ .null ∧ v'.toJson = v.toJson := by
  cases type <;> rw [scalar] at h
  case boolean | int32 | int64 | bytes | fixed | uuid =>
    obtain ⟨a, -, rfl⟩ := Option.map_eq_some_iff.mp (Except.ok.inj h)
    refine ⟨_, ?_, Value.noConfusion, rfl⟩
    trivial
  case string | enum =>
    cases raw with
    | string s =>
        cases h
        refine ⟨_, ?_, Value.noConfusion, rfl⟩
        trivial
    | _ => cases h
  case date =>
    obtain ⟨date?, -, h⟩ := exists_of_bind_eq_ok h
    obtain ⟨d, -, rfl⟩ := Option.map_eq_some_iff.mp (Except.ok.inj h)
    refine ⟨_, ?_, Value.noConfusion, rfl⟩
    trivial
  case float32 =>
    obtain ⟨x, -, rfl⟩ := Option.map_eq_some_iff.mp (Except.ok.inj h)
    refine ⟨_, ?_, Value.noConfusion, rfl⟩
    exact Bool.of_not_eq_false hkept
  case float64 =>
    obtain ⟨x, hx, rfl⟩ := Option.map_eq_some_iff.mp (Except.ok.inj h)
    refine ⟨_, ?_, Value.noConfusion, rfl⟩
    exact Json.toBinary64?_isFinite hraw hx
  case timeMillis =>
    obtain ⟨t, -, rfl⟩ := Option.map_eq_some_iff.mp (Except.ok.inj h)
    have hd : 1000 * (1000000000 / 1000) = 1000000000 := by decide
    obtain ⟨t', hwhole, hunits⟩ := TimeOfDay.exists_whole hd hkept
    exact ⟨.timeMillis t', hwhole, Value.noConfusion, by simp only [Value.toJson, hunits]⟩
  case timeMicros =>
    obtain ⟨t, -, rfl⟩ := Option.map_eq_some_iff.mp (Except.ok.inj h)
    have hd : 1000000 * (1000000000 / 1000000) = 1000000000 := by decide
    obtain ⟨t', hwhole, hunits⟩ := TimeOfDay.exists_whole hd hkept
    exact ⟨.timeMicros t', hwhole, Value.noConfusion, by simp only [Value.toJson, hunits]⟩
  case timestampMillis =>
    obtain ⟨i, hi, rfl⟩ := Option.map_eq_some_iff.mp (Except.ok.inj h)
    obtain ⟨i', hwhole, hunits⟩ := exists_whole_of_instantOf? (by decide) hi
    exact ⟨.timestampMillis i', hwhole, Value.noConfusion, by simp only [Value.toJson, hunits]⟩
  case timestampMicros =>
    obtain ⟨i, hi, rfl⟩ := Option.map_eq_some_iff.mp (Except.ok.inj h)
    obtain ⟨i', hwhole, hunits⟩ := exists_whole_of_instantOf? (by decide) hi
    exact ⟨.timestampMicros i', hwhole, Value.noConfusion, by simp only [Value.toJson, hunits]⟩
  case decimal =>
    obtain ⟨d, hd, rfl⟩ := Option.map_eq_some_iff.mp (Except.ok.inj h)
    cases raw with
    | string s =>
        refine ⟨_, ?_, Value.noConfusion, rfl⟩
        exact Decimal.unscaled_ne_of_parse hd
    | _ => cases hd
  all_goals cases h

/-- The units of the leap second that ends the day are those of no time. -/
theorem timeOf?_units_eq_none {perSecond : Nat}
    (hd : perSecond * (1000000000 / perSecond) = 1000000000) {t : TimeOfDay}
    (h : 1000000000 ≤ t.nanos ∧ t.seconds = 86399) :
    timeOf? perSecond (.integer (t.units perSecond)) = none := by
  rw [timeOf?, Option.bind_eq_none_iff]
  · intro n hn
    rw [Json.toInt64?_eq_some_iff, Json.integer.injEq] at hn
    rw [← hn, Option.eq_none_iff_forall_ne_some]
    intro t' ht'
    have hlt := ((TimeOfDay.exists_ofUnits?_iff hd).mp ⟨t', ht'⟩).2
    exact (TimeOfDay.units_lt_day_iff hd).mp (by exact_mod_cast hlt) h
  · exact fun s hs => Json.noConfusion hs

/-- The encoding of such a scalar is not accepted. -/
theorem scalar_lost {type : DeclaredType} {v : Value} (h : type.LosesScalar v) :
    scalar type v.toJson = .ok none := by
  cases type <;> cases v <;> simp only [LosesScalar] at h
  all_goals rw [Value.toJson, scalar]
  case float32.float32 x =>
    rw [Value.finiteToJson, if_neg (by simp [Binary.widen_isFinite_eq_false h])]
    rfl
  case timeMillis.timeMillis t => rw [timeOf?_units_eq_none (by decide) h, Option.map_none]
  case timeMicros.timeMicros t => rw [timeOf?_units_eq_none (by decide) h, Option.map_none]

end Conversion

end RecordModel
