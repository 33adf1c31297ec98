/-
**Reading scalars back.**

The encoding of a value without parts is a number or a text.  Bytes are read back from the
characters of their numbers, identifiers from their text, days and units from their number.  A time
of day goes back to itself when it is a whole number of units and no leap second, and the same holds
for an instant.

Main definitions:

* `TimeOfDay.Whole` — times of whole units, of which none is in a leap second.

Main results:

* `Uuid.parse_text` — identifiers are read back from their text;
* `Conversion.bytesOf?_byteChars` — bytes are read back from their characters;
* `TimeOfDay.ofUnits?_eq_some_iff`, `Instant.ofUnits?_eq_some_iff` — **the times and instants that
  are read from a number of units**;
* `TimeOfDay.exists_ofUnits?_iff`, `Instant.exists_ofUnits?_iff` — the numbers of units that are
  read.
-/

import RecordModel.Model.Conversion
import RecordModel.Proofs.Draws
import RecordModel.Value.Encoding

set_option relaxedAutoImplicit false
set_option autoImplicit false

namespace RecordModel

/-! ### Bytes -/

theorem Value.toNat_byteChar (b : UInt8) : (Char.ofNat b.toNat).toNat = b.toNat := by
  have hb : b.toNat < 256 := b.toNat_lt
  have hvalid : b.toNat.isValidChar := Or.inl (by omega)
  rw [Char.ofNat, dif_pos hvalid]
  rfl

/-- Bytes are read back from their characters. -/
theorem Conversion.bytesOf?_byteChars (bs : List UInt8) :
    bytesOf? (String.ofList (Value.byteChars bs)) = some bs := by
  rw [bytesOf?, String.toList_ofList, Value.byteChars]
  induction bs with
  | nil => rfl
  | cons b bs ih =>
      rw [List.map_cons, List.mapM_cons, ih, Value.toNat_byteChar, if_pos b.toNat_lt,
        UInt8.ofNat_toNat]
      rfl

/-! ### Identifiers -/

namespace Uuid

theorem digitValue?_digitChar {n : Nat} (h : n < 16) : digitValue? n.digitChar = some n := by
  have hall : ∀ n < 16, digitValue? n.digitChar = some n := by decide
  exact hall n h

theorem digitChar_ne_dash {n : Nat} (h : n < 16) : n.digitChar ≠ '-' := by
  have hall : ∀ n < 16, n.digitChar ≠ '-' := by decide
  exact hall n h

/-- What holds of every hexadecimal digit holds of the digits of a number. -/
theorem forall_mem_toDigits {P : Char → Prop} (h : ∀ n < 16, P n.digitChar) (n : Nat) :
    ∀ c ∈ Nat.toDigits 16 n, P c := by
  induction n using Nat.strongRecOn with
  | _ n ih =>
      rw [Nat.toDigits_eq_if (by decide)]
      split
      · rename_i hlt
        exact fun c hc => List.mem_singleton.mp hc ▸ h n hlt
      · rename_i hge
        intro c hc
        rcases List.mem_append.mp hc with hc | hc
        · exact ih (n / 16) (by omega) c hc
        · exact List.mem_singleton.mp hc ▸ h (n % 16) (Nat.mod_lt _ (by decide))

/-- The digits of a number write that number. -/
theorem value?_toDigits (n : Nat) : value? (Nat.toDigits 16 n) = some n := by
  induction n using Nat.strongRecOn with
  | _ n ih =>
      rw [Nat.toDigits_eq_if (by decide)]
      split
      · rename_i hlt
        simp [value?, digitValue?_digitChar hlt]
      · rename_i hge
        have hmod : n % 16 < 16 := Nat.mod_lt _ (by decide)
        have hhead : value? (Nat.toDigits 16 (n / 16)) = some (n / 16) := ih _ (by omega)
        rw [value?] at hhead ⊢
        rw [List.foldlM_append, hhead]
        simp only [Option.bind_eq_bind, Option.bind_some, List.foldlM_cons, List.foldlM_nil,
          digitValue?_digitChar hmod, Option.map_some, Option.pure_def, Option.some.injEq]
        omega

theorem value?_zeros (k : Nat) (ds : List Char) :
    value? (List.replicate k '0' ++ ds) = value? ds := by
  induction k with
  | zero => rfl
  | succ k ih =>
      rw [List.replicate_succ, List.cons_append, value?, List.foldlM_cons]
      exact ih

theorem length_digits (u : Uuid) : u.digits.length = 32 := by
  have hle : (Nat.toDigits 16 u.bits.toNat).length ≤ 32 := by
    rw [Nat.length_toDigits_le_iff (by decide) (by decide)]
    exact u.bits.isLt
  rw [digits, List.length_append, List.length_replicate]
  omega

theorem ne_dash_of_mem_digits {u : Uuid} {c : Char} (h : c ∈ u.digits) : c ≠ '-' := by
  rcases List.mem_append.mp h with h | h
  · rw [List.eq_of_mem_replicate h]
    decide
  · exact forall_mem_toDigits (P := (· ≠ '-')) (fun _ hn => digitChar_ne_dash hn) _ c h

theorem ofDigits?_digits (u : Uuid) : ofDigits? u.digits = some u := by
  rw [ofDigits?, if_pos u.length_digits, digits, value?_zeros, value?_toDigits, Option.map_some,
    BitVec.ofNat_toNat, BitVec.setWidth_eq]

/-- Without the dashes the groups are the digits again. -/
theorem filter_grouped {ds : List Char} (h : ∀ c ∈ ds, c ≠ '-') :
    (grouped ds).filter (· ≠ '-') = ds := by
  have hkeep {l : List Char} (hl : ∀ c ∈ l, c ∈ ds) : l.filter (· ≠ '-') = l :=
    List.filter_eq_self.mpr fun c hc => decide_eq_true (h c (hl c hc))
  have hfirst : ∀ c ∈ ds.take 8, c ∈ ds := fun c hc => List.mem_of_mem_take hc
  have hlast : ∀ c ∈ ds.drop 20, c ∈ ds := fun c hc => List.mem_of_mem_drop hc
  have hgroup (k : Nat) : ∀ c ∈ (ds.drop k).take 4, c ∈ ds :=
    fun c hc => List.mem_of_mem_drop (List.mem_of_mem_take hc)
  have hdash (l : List Char) : ('-' :: l).filter (· ≠ '-') = l.filter (· ≠ '-') :=
    List.filter_cons_of_neg (by decide)
  have hjoin (k : Nat) : (ds.drop k).take 4 ++ ds.drop (k + 4) = ds.drop k := by
    rw [← List.drop_drop, List.take_append_drop]
  simp only [grouped, List.append_assoc, List.cons_append, List.filter_append, hdash,
    hkeep hfirst, hkeep hlast, hkeep (hgroup _)]
  rw [hjoin 16, hjoin 12, hjoin 8, List.take_append_drop]

/-- **An identifier is read back from its text.** -/
theorem parse_text (u : Uuid) : parse u.text = some u := by
  have hlen : u.text.length = 36 := by
    have h := u.length_digits
    simp only [text, grouped, List.length_append, List.length_cons, List.length_take,
      List.length_drop, h]
    decide
  have hfilter := filter_grouped fun c => ne_dash_of_mem_digits (u := u)
  rw [parse, if_neg (by omega), if_pos hlen, ofGrouped?, text, hfilter, if_pos rfl]
  exact u.ofDigits?_digits

end Uuid

/-! ### Times of day -/

/-- A number and its whole part and remainder, of which the remainder is told in units of its
own. -/
theorem units_parts_iff {p u : Nat} (hp : 0 < p) (hu : 0 < u) {n s : Int} {m : Nat} :
    n / p = s ∧ (n % p).toNat * u = m ↔ m < p * u ∧ m % u = 0 ∧ n = s * p + (m / u : Nat) := by
  constructor
  · rintro ⟨rfl, rfl⟩
    have hpos : 0 ≤ n % p := Int.emod_nonneg _ (by omega)
    have hlt : n % p < p := Int.emod_lt_of_pos _ (by omega)
    refine ⟨Nat.mul_lt_mul_of_pos_right (by omega) hu, Nat.mul_mod_left _ _, ?_⟩
    rw [Nat.mul_div_cancel _ hu, Int.toNat_of_nonneg hpos, Int.mul_comm]
    exact (Int.mul_ediv_add_emod n p).symm
  · rintro ⟨hm, hmod, rfl⟩
    have hlt : m / u < p := Nat.div_lt_of_lt_mul (by rwa [Nat.mul_comm])
    have hback : m / u * u = m := Nat.div_mul_cancel (Nat.dvd_of_mod_eq_zero hmod)
    have hne : (p : Int) ≠ 0 := by omega
    generalize m / u = r at hlt hback ⊢
    rw [Int.add_comm, Int.add_mul_ediv_right _ _ hne, Int.add_mul_emod_self_right,
      Int.ediv_eq_zero_of_lt (by omega) (by omega), Int.emod_eq_of_lt (by omega) (by omega),
      Int.zero_add, Int.toNat_natCast]
    exact ⟨rfl, hback⟩

/-- There are units in a second, and nanoseconds in a unit. -/
theorem rate_pos {perSecond : Nat} (hd : perSecond * (1000000000 / perSecond) = 1000000000) :
    0 < perSecond ∧ 0 < 1000000000 / perSecond := by
  constructor
  · refine Nat.pos_of_ne_zero fun h => ?_
    rw [h] at hd
    omega
  · refine Nat.pos_of_ne_zero fun h => ?_
    rw [h] at hd
    omega

namespace TimeOfDay

/-- The time is a whole number of units, of which there are `perSecond` in a second, and it is not
in a leap second. -/
def Whole (perSecond : Nat) (t : TimeOfDay) : Prop :=
  t.nanos < 1000000000 ∧ t.nanos % (1000000000 / perSecond) = 0

section

variable {perSecond : Nat} (hd : perSecond * (1000000000 / perSecond) = 1000000000)

include hd

theorem nanos_div_lt {nanos : Nat} (seconds : Nat) (h : nanos < seconds * 1000000000) :
    nanos / (1000000000 / perSecond) < seconds * perSecond := by
  rw [Nat.div_lt_iff_lt_mul (rate_pos hd).2, Nat.mul_assoc, hd]
  exact h

theorem units_lt (t : TimeOfDay) : t.units perSecond < 86401 * perSecond := by
  have hnanos := nanos_div_lt hd 2 t.nanos_lt
  have hseconds : t.seconds * perSecond ≤ 86399 * perSecond :=
    Nat.mul_le_mul_right _ (Nat.le_of_lt_succ t.seconds_lt)
  unfold units
  omega

/-- Outside the leap second that ends the day they end within the day. -/
theorem units_lt_day {t : TimeOfDay} (h : t.nanos < 1000000000 ∨ t.seconds < 86399) :
    t.units perSecond < 86400 * perSecond := by
  unfold units
  rcases h with h | h
  · have hnanos := nanos_div_lt hd 1 (by omega : t.nanos < 1 * 1000000000)
    have hseconds : t.seconds * perSecond ≤ 86399 * perSecond :=
      Nat.mul_le_mul_right _ (Nat.le_of_lt_succ t.seconds_lt)
    omega
  · have hnanos := nanos_div_lt hd 2 t.nanos_lt
    have hseconds : t.seconds * perSecond ≤ 86398 * perSecond :=
      Nat.mul_le_mul_right _ (Nat.le_of_lt_succ h)
    omega

/-- **The time that is read from a number of units** has so many of them, and nothing else. -/
theorem ofUnits?_eq_some_iff {n : Int} {t : TimeOfDay} :
    ofUnits? perSecond n = some t ↔ t.Whole perSecond ∧ n = t.units perSecond := by
  obtain ⟨hp, hu⟩ := rate_pos hd
  rw [ofUnits?]
  split
  · rename_i hneg
    constructor
    · intro h
      cases h
    · rintro ⟨-, rfl⟩
      omega
  · rename_i hpos
    obtain ⟨k, rfl⟩ := Int.eq_ofNat_of_zero_le (Int.not_lt.mp hpos)
    have hparts := units_parts_iff hp hu (n := (k : Int)) (s := (t.seconds : Int)) (m := t.nanos)
    rw [hd] at hparts
    rw [ofParts?_eq_some_iff, Int.toNat_natCast, Whole, and_assoc, units]
    rw [← Int.natCast_ediv, Int.natCast_inj, ← Int.natCast_emod, Int.toNat_natCast] at hparts
    rw [hparts, Int.natCast_add, Int.natCast_mul]

/-- **The numbers of units that are read as a time** are those of one day. -/
theorem exists_ofUnits?_iff {n : Int} :
    (∃ t, ofUnits? perSecond n = some t) ↔ 0 ≤ n ∧ n < 86400 * perSecond := by
  obtain ⟨hp, -⟩ := rate_pos hd
  constructor
  · rintro ⟨t, ht⟩
    obtain ⟨hwhole, rfl⟩ := (ofUnits?_eq_some_iff hd).mp ht
    have hlt := units_lt_day hd (t := t) (Or.inl hwhole.1)
    omega
  · rintro ⟨hpos, hlt⟩
    obtain ⟨k, rfl⟩ := Int.eq_ofNat_of_zero_le hpos
    have hk : k / perSecond < 86400 := by
      rw [Nat.div_lt_iff_lt_mul hp]
      omega
    obtain ⟨t, ht⟩ := Generator.exists_ofUnits? hk (Nat.mod_lt k hp)
    refine ⟨t, ?_⟩
    rwa [← Int.natCast_mul, ← Int.natCast_add, Nat.mul_comm, Nat.div_add_mod] at ht

end

end TimeOfDay

/-! ### Instants -/

namespace Instant

/-- An instant is made of its seconds and its nanoseconds alone. -/
theorem ofUnix?_eq_some_iff {s : Int} {m : Nat} {i : Instant} :
    ofUnix? s m = some i ↔ s = i.unixSeconds ∧ m = i.time.nanos := by
  have hseconds := i.time.seconds_lt
  simp only [ofUnix?, Option.bind_eq_bind, Option.bind_eq_some_iff, Date.ofDay?_eq_some_iff,
    TimeOfDay.ofParts?_eq_some_iff, Option.some.injEq, unixSeconds]
  constructor
  · rintro ⟨date, hday, time, ⟨hs, hm⟩, rfl⟩
    refine ⟨?_, hm⟩
    dsimp only
    omega
  · rintro ⟨hs, hm⟩
    exact ⟨i.date, by omega, i.time, ⟨by omega, hm⟩, rfl⟩

section

variable {perSecond : Nat} (hd : perSecond * (1000000000 / perSecond) = 1000000000)

include hd

/-- **The instant that is read from a number of units** has so many of them, and nothing else. -/
theorem ofUnits?_eq_some_iff {n : Int} {i : Instant} :
    ofUnits? perSecond n = some i ↔ i.time.Whole perSecond ∧ n = i.units perSecond := by
  obtain ⟨hp, hu⟩ := rate_pos hd
  have hparts := units_parts_iff hp hu (n := n) (s := i.unixSeconds) (m := i.time.nanos)
  rw [hd] at hparts
  rw [ofUnits?, ofUnix?_eq_some_iff, hparts, TimeOfDay.Whole, and_assoc, units]

/-- **The numbers of units that are read as an instant** are those of the days of the calendar. -/
theorem exists_ofUnits?_iff {n : Int} :
    (∃ i, ofUnits? perSecond n = some i) ↔
      -96465292 ≤ n / perSecond / 86400 ∧ n / perSecond / 86400 ≤ 95026236 := by
  obtain ⟨hp, hu⟩ := rate_pos hd
  constructor
  · rintro ⟨i, hi⟩
    rw [ofUnits?, ofUnix?_eq_some_iff] at hi
    have hseconds := i.time.seconds_lt
    have hcalendar := i.date.in_calendar
    rw [hi.1, unixSeconds]
    omega
  · intro hday
    have hpos : 0 ≤ n % perSecond := Int.emod_nonneg _ (by omega)
    have hlt : n % perSecond < perSecond := Int.emod_lt_of_pos _ (by omega)
    have hnanos : (n % perSecond).toNat * (1000000000 / perSecond) < 1000000000 := by
      calc (n % perSecond).toNat * (1000000000 / perSecond)
          < perSecond * (1000000000 / perSecond) := Nat.mul_lt_mul_of_pos_right (by omega) hu
        _ = 1000000000 := hd
    have hparts : (n / perSecond % 86400).toNat < 86400 ∧
        (n % perSecond).toNat * (1000000000 / perSecond) < 2000000000 ∧
        (1000000000 ≤ (n % perSecond).toNat * (1000000000 / perSecond) →
          (n / perSecond % 86400).toNat % 60 = 59) :=
      ⟨by omega, by omega, fun h => by omega⟩
    refine ⟨⟨⟨_, hday⟩, ⟨_, _, hparts.1, hparts.2.1, hparts.2.2⟩⟩, ?_⟩
    rw [ofUnits?, ofUnix?, Date.ofDay?, dif_pos hday, TimeOfDay.ofParts?, dif_pos hparts]
    rfl

end

end Instant

/-! ### Numbers and days -/

namespace Json

theorem toInt64?_toInt (n : Int64) : (Json.integer n.toInt).toInt64? = some n :=
  (toInt64?_eq_some_iff _ n).mpr rfl

theorem exists_toInt64? {n : Int} (h : -(pow2 63 : Int) ≤ n ∧ n < pow2 63) :
    ∃ k, (Json.integer n).toInt64? = some k ∧ k.toInt = n := by
  refine ⟨.ofInt n, by rw [toInt64?, if_pos h], Int64.toInt_ofInt_of_le h.1 h.2⟩

end Json

namespace Conversion

theorem int32Of?_toInt (n : Int32) : int32Of? (.integer n.toInt) = some n := by
  have hlow : -(pow2 31 : Int) ≤ n.toInt := n.le_toInt
  have hhigh : n.toInt < pow2 31 := n.toInt_lt
  have hpow : pow2 31 ≤ pow2 63 := by decide
  obtain ⟨k, hk, hkn⟩ := Json.exists_toInt64? (n := n.toInt) ⟨by omega, by omega⟩
  rw [int32Of?, hk, Option.bind_some, hkn, if_pos ⟨hlow, hhigh⟩, Int32.ofInt_toInt]

/-- A date is read back from its day. -/
theorem dateOf_day (d : Date) : dateOf (.integer d.day) = .ok (some d) := by
  have hcalendar := d.in_calendar
  have hpow : pow2 63 = 9223372036854775808 := by decide
  obtain ⟨k, hk, hkn⟩ := Json.exists_toInt64? (n := d.day) ⟨by omega, by omega⟩
  have hmost : ¬ mostDays < d.day.natAbs := by
    rw [mostDays]
    omega
  simp only [dateOf, hk, hkn, if_neg hmost, Date.ofDay?_day]

end Conversion

end RecordModel
