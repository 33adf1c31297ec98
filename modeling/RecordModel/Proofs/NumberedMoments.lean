/-
**Days, times of day and instants by their numbers.**

A day, a time of day and an instant can be written as a whole number: the days or the units since
the first of January 1970, or the units since midnight.  A number that is taken stands for one
value, which lies exactly so many units behind the start, or before it if the number is negative,
and never in a leap second.  The encoding of the value is the number again, and every value of whole
units outside the leap seconds has its number.

A value in whole units and its number are compared in nanoseconds, where both are exact: neither the
whole seconds nor the units of a fraction are looked at by themselves.

Main definitions:

* `DeclaredType.isTemporal` — the types of days, times of day and instants;
* `TimeOfDay.IsAt`, `Instant.IsAt` — exactly so many units behind the start;
* `DeclaredType.Stands` — the value that a number stands for.

Main results:

* `TimeOfDay.isAt_iff`, `Instant.isAt_iff` — what is so many whole units behind the start;
* `DeclaredType.Stands.toJson_eq`, `DeclaredType.Stands.unique` — the encoding is the number, and a
  value has one number;
* `Conversion.convert_integer_iff` — **a number is taken for the value that it stands for, and for
  nothing else**;
* `Conversion.numbers_exact` — **numbers and values of whole units correspond to each other**.
-/

import RecordModel.Proofs.AcceptedValues

set_option relaxedAutoImplicit false
set_option autoImplicit false

namespace RecordModel

/-! ### Units since a start -/

/-- Seconds and nanoseconds are a whole number of units, of which there are `p` in a second of `u`
nanoseconds each, exactly when they are so many times the nanoseconds of a unit. -/
theorem units_exact_iff {p u m : Nat} {s n : Int} (hu : 0 < u) :
    m % u = 0 ∧ n = s * p + (m / u : Nat) ↔ s * (p * u : Nat) + m = n * u := by
  have hne : (u : Int) ≠ 0 := by omega
  rw [Int.natCast_mul, ← Int.mul_assoc]
  constructor
  · rintro ⟨hmod, rfl⟩
    have hback : ((m / u : Nat) : Int) * u = m := by
      rw [← Int.natCast_mul, Nat.div_mul_cancel (Nat.dvd_of_mod_eq_zero hmod)]
    rw [Int.add_mul, hback]
  · intro h
    have hm : (m : Int) = (n - s * p) * u := by
      rw [Int.sub_mul, ← h, add_sub_cancel_left]
    have hdvd : u ∣ m := Int.natCast_dvd_natCast.mp ⟨n - s * p, by rw [hm, Int.mul_comm]⟩
    have hquotient : ((m / u : Nat) : Int) = n - s * p := by
      rw [Int.natCast_ediv, hm, Int.mul_ediv_cancel _ hne]
    exact ⟨Nat.mod_eq_zero_of_dvd hdvd, by omega⟩

/-- The time lies exactly `n` units behind midnight, `perSecond` of them to a second, and not in a
leap second. -/
def TimeOfDay.IsAt (perSecond : Nat) (n : Int) (t : TimeOfDay) : Prop :=
  t.nanos < 1000000000 ∧
    t.seconds * (1000000000 : Nat) + t.nanos = n * (1000000000 / perSecond : Nat)

/-- The instant lies exactly `n` units behind the first of January 1970, `perSecond` of them to a
second, and not in a leap second. -/
def Instant.IsAt (perSecond : Nat) (n : Int) (i : Instant) : Prop :=
  i.time.nanos < 1000000000 ∧
    i.unixSeconds * (1000000000 : Nat) + i.time.nanos = n * (1000000000 / perSecond : Nat)

section

variable {perSecond : Nat} (hd : perSecond * (1000000000 / perSecond) = 1000000000) {n : Int}

include hd

theorem TimeOfDay.isAt_iff {t : TimeOfDay} :
    t.IsAt perSecond n ↔ t.Whole perSecond ∧ n = t.units perSecond := by
  have hunits := units_exact_iff (p := perSecond) (m := t.nanos) (s := t.seconds) (n := n)
    (rate_pos hd).2
  rw [hd] at hunits
  rw [IsAt, ← hunits, Whole, and_assoc, units, Int.natCast_add, Int.natCast_mul]

/-- An instant of whole units is so many of them behind the first of January 1970. -/
theorem Instant.isAt_iff {i : Instant} :
    i.IsAt perSecond n ↔ i.time.Whole perSecond ∧ n = i.units perSecond := by
  have hunits := units_exact_iff (p := perSecond) (m := i.time.nanos) (s := i.unixSeconds) (n := n)
    (rate_pos hd).2
  rw [hd] at hunits
  rw [IsAt, ← hunits, TimeOfDay.Whole, and_assoc, units]

theorem TimeOfDay.exists_isAt_iff :
    (∃ t : TimeOfDay, t.IsAt perSecond n) ↔ 0 ≤ n ∧ n < 86400 * perSecond := by
  rw [← exists_ofUnits?_iff hd]
  exact exists_congr fun t => (isAt_iff hd).trans (ofUnits?_eq_some_iff hd).symm

/-- Every time of whole units is a number of units of 64 bits behind midnight. -/
theorem TimeOfDay.exists_isAt (hp : perSecond ≤ 1000000) {t : TimeOfDay} (h : t.Whole perSecond) :
    ∃ k : Int64, t.IsAt perSecond k.toInt := by
  obtain ⟨k, -, hk⟩ := Conversion.exists_toInt64?_units hd hp t
  exact ⟨k, (isAt_iff hd).mpr ⟨h, hk⟩⟩

theorem Instant.exists_isAt (hp : perSecond = 1000 ∨ perSecond = 1000000) {i : Instant}
    (h : i.time.Whole perSecond) : ∃ k : Int64, i.IsAt perSecond k.toInt := by
  obtain ⟨k, -, hk⟩ := Conversion.exists_toInt64?_instantUnits hd hp i
  exact ⟨k, (isAt_iff hd).mpr ⟨h, hk⟩⟩

end

/-! ### What a number stands for -/

namespace DeclaredType

/-- The types of days, times of day and instants. -/
def isTemporal : DeclaredType → Bool
  | .date => true
  | .timeMillis => true
  | .timeMicros => true
  | .timestampMillis => true
  | .timestampMicros => true
  | _ => false

/-- How many units a second has in the numbers for a time of day. -/
def timeRate? : DeclaredType → Option Nat
  | .timeMillis => some 1000
  | .timeMicros => some 1000000
  | _ => none

theorem isScalar_of_isTemporal {type : DeclaredType} (h : type.isTemporal = true) :
    type.isScalar = true := by
  cases type <;> first | rfl | cases h

/-- The value that a number stands for: the day with the number, or the time or the instant so many
units behind the start. -/
inductive Stands : DeclaredType → Int → Value → Prop
  | date {n : Int} {d : Date} : n = d.day → Stands .date n (.date d)
  | timeMillis {n : Int} {t : TimeOfDay} :
      t.IsAt 1000 n → Stands .timeMillis n (.timeMillis t)
  | timeMicros {n : Int} {t : TimeOfDay} :
      t.IsAt 1000000 n → Stands .timeMicros n (.timeMicros t)
  | timestampMillis {n : Int} {i : Instant} :
      i.IsAt 1000 n → Stands .timestampMillis n (.timestampMillis i)
  | timestampMicros {n : Int} {i : Instant} :
      i.IsAt 1000000 n → Stands .timestampMicros n (.timestampMicros i)

namespace Stands

variable {type : DeclaredType} {n m : Int} {v : Value}

/-- **The encoding of the value is the number.** -/
theorem toJson_eq (h : type.Stands n v) : v.toJson = .integer n := by
  cases h with
  | date h => rw [Value.toJson, ← h]
  | timeMillis h => rw [Value.toJson, ← ((TimeOfDay.isAt_iff (by decide)).mp h).2]
  | timeMicros h => rw [Value.toJson, ← ((TimeOfDay.isAt_iff (by decide)).mp h).2]
  | timestampMillis h => rw [Value.toJson, ← ((Instant.isAt_iff (by decide)).mp h).2]
  | timestampMicros h => rw [Value.toJson, ← ((Instant.isAt_iff (by decide)).mp h).2]

theorem unique (h : type.Stands n v) (h' : type.Stands m v) : n = m :=
  Json.integer.inj (h.toJson_eq.symm.trans h'.toJson_eq)

end Stands

/-- A value of whole units has a number of 64 bits. -/
theorem exists_stands {type : DeclaredType} {v : Value} (ht : type.isTemporal = true)
    (h : type.KeepsScalar v) : ∃ n : Int64, type.Stands n.toInt v := by
  cases type <;> simp only [isTemporal, Bool.false_eq_true] at ht
  all_goals cases v <;> simp only [KeepsScalar] at h
  case date.date d =>
    have hpow : pow2 63 = 9223372036854775808 := by decide
    have hcalendar := d.in_calendar
    obtain ⟨k, -, hk⟩ := Json.exists_toInt64? (n := d.day) ⟨by omega, by omega⟩
    exact ⟨k, .date hk⟩
  case timeMillis.timeMillis t =>
    obtain ⟨k, hk⟩ := TimeOfDay.exists_isAt (by decide) (by decide) h
    exact ⟨k, .timeMillis hk⟩
  case timeMicros.timeMicros t =>
    obtain ⟨k, hk⟩ := TimeOfDay.exists_isAt (by decide) (by decide) h
    exact ⟨k, .timeMicros hk⟩
  case timestampMillis.timestampMillis i =>
    obtain ⟨k, hk⟩ := Instant.exists_isAt (by decide) (Or.inl rfl) h
    exact ⟨k, .timestampMillis hk⟩
  case timestampMicros.timestampMicros i =>
    obtain ⟨k, hk⟩ := Instant.exists_isAt (by decide) (Or.inr rfl) h
    exact ⟨k, .timestampMicros hk⟩

/-- The numbers that stand for a time of day are those of the units of a day. -/
theorem exists_stands_time_iff {type : DeclaredType} {perSecond : Nat} {n : Int}
    (h : type.timeRate? = some perSecond) :
    (∃ v, type.Stands n v) ↔ 0 ≤ n ∧ n < 86400 * perSecond := by
  cases type <;> cases h
  case timeMillis.refl =>
    rw [← TimeOfDay.exists_isAt_iff (by decide)]
    constructor
    · rintro ⟨v, hv⟩
      cases hv with
      | timeMillis ht => exact ⟨_, ht⟩
    · rintro ⟨t, ht⟩
      exact ⟨_, .timeMillis ht⟩
  case timeMicros.refl =>
    rw [← TimeOfDay.exists_isAt_iff (by decide)]
    constructor
    · rintro ⟨v, hv⟩
      cases hv with
      | timeMicros ht => exact ⟨_, ht⟩
    · rintro ⟨t, ht⟩
      exact ⟨_, .timeMicros ht⟩

theorem isTemporal_of_timeRate? {type : DeclaredType} {perSecond : Nat}
    (h : type.timeRate? = some perSecond) : type.isTemporal = true := by
  cases type <;> first | rfl | cases h

end DeclaredType

/-! ### Reading numbers -/

namespace Conversion

variable {n : Int64}

/-- A number is taken for the day that it numbers. -/
theorem dateOf_integer_iff {d : Date} :
    dateOf (.integer n.toInt) = .ok (some d) ↔ n.toInt = d.day := by
  constructor
  · intro h
    simp only [dateOf, Json.toInt64?_toInt] at h
    split at h
    · cases h
    · exact (Date.ofDay?_eq_some_iff _ _).mp (Except.ok.inj h)
  · intro h
    rw [h]
    exact dateOf_day d

section

variable {perSecond : Nat} (hd : perSecond * (1000000000 / perSecond) = 1000000000)

include hd

theorem timeOf?_integer_iff {t : TimeOfDay} :
    timeOf? perSecond (.integer n.toInt) = some t ↔ t.IsAt perSecond n.toInt := by
  rw [timeOf?, Json.toInt64?_toInt, Option.bind_some, TimeOfDay.ofUnits?_eq_some_iff hd,
    TimeOfDay.isAt_iff hd]
  exact fun s hs => Json.noConfusion hs

theorem instantOf?_integer_iff {i : Instant} :
    instantOf? perSecond (.integer n.toInt) = some i ↔ i.IsAt perSecond n.toInt := by
  rw [instantOf?, Json.toInt64?_toInt, Option.bind_some, Instant.ofUnits?_eq_some_iff hd,
    Instant.isAt_iff hd]
  exact fun s hs => Json.noConfusion hs

end

variable {type : DeclaredType} {v : Value}

/-- A number is taken for no other value than the one it stands for. -/
theorem stands_of_scalar (ht : type.isTemporal = true)
    (h : scalar type (.integer n.toInt) = .ok (some v)) : type.Stands n.toInt v := by
  cases type <;> simp only [DeclaredType.isTemporal, Bool.false_eq_true] at ht
  all_goals rw [scalar] at h
  case date =>
    obtain ⟨date?, hdate, h⟩ := exists_of_bind_eq_ok h
    obtain ⟨d, rfl, rfl⟩ := Option.map_eq_some_iff.mp (Except.ok.inj h)
    exact .date (dateOf_integer_iff.mp hdate)
  case timeMillis =>
    obtain ⟨t, ht, rfl⟩ := Option.map_eq_some_iff.mp (Except.ok.inj h)
    exact .timeMillis ((timeOf?_integer_iff (by decide)).mp ht)
  case timeMicros =>
    obtain ⟨t, ht, rfl⟩ := Option.map_eq_some_iff.mp (Except.ok.inj h)
    exact .timeMicros ((timeOf?_integer_iff (by decide)).mp ht)
  case timestampMillis =>
    obtain ⟨i, hi, rfl⟩ := Option.map_eq_some_iff.mp (Except.ok.inj h)
    exact .timestampMillis ((instantOf?_integer_iff (by decide)).mp hi)
  case timestampMicros =>
    obtain ⟨i, hi, rfl⟩ := Option.map_eq_some_iff.mp (Except.ok.inj h)
    exact .timestampMicros ((instantOf?_integer_iff (by decide)).mp hi)

/-- A number is taken for the value that it stands for. -/
theorem scalar_of_stands (h : type.Stands n.toInt v) :
    scalar type (.integer n.toInt) = .ok (some v) := by
  cases h with
  | date h =>
      rw [scalar, dateOf_integer_iff.mpr h]
      rfl
  | timeMillis h => rw [scalar, (timeOf?_integer_iff (by decide)).mpr h, Option.map_some]
  | timeMicros h => rw [scalar, (timeOf?_integer_iff (by decide)).mpr h, Option.map_some]
  | timestampMillis h => rw [scalar, (instantOf?_integer_iff (by decide)).mpr h, Option.map_some]
  | timestampMicros h => rw [scalar, (instantOf?_integer_iff (by decide)).mpr h, Option.map_some]

variable (records : List DeclaredRecord) (owner : String) (place : Place)

/-- **A number is taken for the value that it stands for, and for nothing else.** -/
theorem convert_integer_iff (ht : type.isTemporal = true) :
    convert records owner (.integer n.toInt) type place = .ok v ↔ type.Stands n.toInt v := by
  have hs := DeclaredType.isScalar_of_isTemporal ht
  constructor
  · intro h
    rw [convert_scalar records owner hs fun hnull => Json.noConfusion hnull] at h
    exact stands_of_scalar ht (scalar_of_convertScalar h)
  · exact fun h => Reads.scalar hs Json.noConfusion (scalar_of_stands h) place

/-- **Numbers and values of whole units correspond to each other.**  What a number of 64 bits is
taken for lies exactly so many days or units behind the start, or before it, and its encoding is the
number.  A time of day takes exactly the numbers of the units of a day.  Every value in whole units
and outside the leap seconds is the value of exactly one number that is taken. -/
theorem numbers_exact :
    (∀ type : DeclaredType, type.isTemporal = true → ∀ (n : Int64) (v : Value),
      convert records owner (.integer n.toInt) type place = .ok v →
        type.Stands n.toInt v ∧ v.toJson = .integer n.toInt) ∧
    (∀ (type : DeclaredType) (perSecond : Nat), type.timeRate? = some perSecond → ∀ n : Int64,
      (∃ v, convert records owner (.integer n.toInt) type place = .ok v) ↔
        0 ≤ n.toInt ∧ n.toInt < 86400 * perSecond) ∧
    ∀ type : DeclaredType, type.isTemporal = true → ∀ v, type.KeepsScalar v →
      ∃! n : Int64, convert records owner (.integer n.toInt) type place = .ok v := by
  refine ⟨fun type ht n v h => ?_, fun type perSecond hrate n => ?_, fun type ht v hv => ?_⟩
  · have hstands := (convert_integer_iff records owner place ht).mp h
    exact ⟨hstands, hstands.toJson_eq⟩
  · have ht := DeclaredType.isTemporal_of_timeRate? hrate
    rw [← DeclaredType.exists_stands_time_iff hrate]
    exact exists_congr fun v => convert_integer_iff records owner place ht
  · obtain ⟨n, hn⟩ := DeclaredType.exists_stands ht hv
    refine ⟨n, (convert_integer_iff records owner place ht).mpr hn, fun m hm => ?_⟩
    exact Int64.toInt_inj.mp (((convert_integer_iff records owner place ht).mp hm).unique hn)

/-- The last microsecond before the first of January 1970. -/
def lastMicrosecond : Instant :=
  ⟨⟨-1, by decide⟩, ⟨86399, 999999000, by decide, by decide, by decide⟩⟩

/-- The last microsecond before 1970 is the number minus one, and no other one; a day has a last
millisecond, and the number behind it is not taken. -/
theorem lastMicrosecond_exact :
    (convert [] "" (.integer (-1 : Int64).toInt) .timestampMicros .document =
        .ok (.timestampMicros lastMicrosecond) ∧
      (Value.timestampMicros lastMicrosecond).toJson = .integer (-1)) ∧
    (DeclaredType.timeMillis.timeRate? = some 1000 ∧
      (∃ v, convert [] "" (.integer (86399999 : Int64).toInt) .timeMillis .document = .ok v) ∧
      ¬ ∃ v, convert [] "" (.integer (86400000 : Int64).toInt) .timeMillis .document = .ok v) ∧
    DeclaredType.timestampMicros.KeepsScalar (.timestampMicros lastMicrosecond) ∧
      ∃! n : Int64, convert [] "" (.integer n.toInt) .timestampMicros .document =
        .ok (.timestampMicros lastMicrosecond) := by
  obtain ⟨hexact, htimes, hunique⟩ := numbers_exact [] "" .document
  have hwhole : DeclaredType.timestampMicros.KeepsScalar (.timestampMicros lastMicrosecond) :=
    ⟨by decide, by decide⟩
  have hread : convert [] "" (.integer (-1 : Int64).toInt) .timestampMicros .document =
      .ok (.timestampMicros lastMicrosecond) := Reads.scalar rfl Json.noConfusion rfl .document
  refine ⟨⟨hread, (hexact .timestampMicros rfl (-1) _ hread).2⟩, ⟨rfl, ?_, ?_⟩, hwhole,
    hunique .timestampMicros rfl _ hwhole⟩
  · exact (htimes .timeMillis 1000 rfl 86399999).mpr (by decide)
  · exact fun h => absurd ((htimes .timeMillis 1000 rfl 86400000).mp h) (by decide)

end Conversion

end RecordModel
