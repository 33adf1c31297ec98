/-
**Reading encoded values back.**

The encoding of a value says nothing of its type, and some of what a value holds is not in it: a
time of day is written in whole units, a number that is not finite as null.  A value has the exact
shape of a declared type when nothing of it is lost and the type reads it as it was.  Of an instance
any fields may be left out, but those that are there stand in the order of declaration.

The walk through a value changes the record that `self` stands for, in the encoding as in the
reading.

Main definitions:

* `DeclaredType.record?` — the record that a type stands for;
* `DeclaredType.KeepsScalar`, `DeclaredType.Exact` — the values of the exact shape of a type;
* `DeclaredType.Leads`, `DeclaredType.Throughout` — the types that a type leads to;
* `DeclaredRecord.Regular` — records whose instances are read from their encoding;
* `Conversion.Reads` — what is read for a type, wherever it stands.

Main results:

* `Conversion.scalar_toJson` — scalars are read back;
* `Conversion.convertFields_toJson` — the fields of an instance are read back;
* `Conversion.convert_toJson` — **a value of the exact shape of a type is read back from its
  encoding**.
-/

import RecordModel.Proofs.ExactNumbers
import RecordModel.Proofs.Numerals
import RecordModel.Proofs.ScalarEncodings

set_option relaxedAutoImplicit false
set_option autoImplicit false

namespace RecordModel

/-! ### Objects -/

@[simp] theorem Value.keys_toJsonMembers (entries : List (String × Value)) :
    Keyed.keys (toJsonMembers entries) = Keyed.keys entries := by
  rw [toJsonMembers_eq_map, Keyed.keys, Keyed.keys, List.map_map]
  rfl

theorem Value.toJson_map_of_sorted {entries : List (String × Value)}
    (h : (Keyed.keys entries).Pairwise (· < ·)) :
    (Value.map entries).toJson = .object (toJsonMembers entries) := by
  have hnodup : (Keyed.keys (toJsonMembers entries)).Nodup := by
    rw [keys_toJsonMembers]
    exact Keyed.nodup_of_sorted h
  rw [toJson, Json.ofMembers, Keyed.ofArrivals_of_nodup hnodup]

theorem Value.toJson_record_of_nodup {name : String} {fields : List (String × Value)}
    (h : (Keyed.keys fields).Nodup) :
    (Value.record ⟨name, fields⟩).toJson = .object (toJsonMembers fields) := by
  have hnodup : (Keyed.keys (toJsonMembers fields)).Nodup := by
    rw [keys_toJsonMembers]
    exact h
  rw [toJson, Json.ofMembers, Keyed.ofArrivals_of_nodup hnodup]

/-! ### Exact shapes -/

namespace DeclaredType

/-- The record that a type stands for inside the record `owner`. -/
def record? (owner : String) : DeclaredType → Option String
  | .record name => some name
  | .self => some owner
  | _ => none

/-- Whether the values of the type have no parts. -/
def isScalar : DeclaredType → Bool
  | .list _ => false
  | .tuple _ => false
  | .dict _ => false
  | .union _ => false
  | .optional _ => false
  | .record _ => false
  | .self => false
  | _ => true

/-- The scalars of the exact shape of a type. -/
def KeepsScalar : DeclaredType → Value → Prop
  | .null, .null => True
  | .boolean, .boolean _ => True
  | .int32, .int32 _ => True
  | .int64, .int64 _ => True
  | .float32, .float32 x => x.isFinite = true
  | .float64, .float64 x => x.isFinite = true
  | .bytes, .bytes _ => True
  | .string, .string _ => True
  | .date, .date _ => True
  | .timeMillis, .timeMillis t => t.Whole 1000
  | .timeMicros, .timeMicros t => t.Whole 1000000
  | .timestampMillis, .timestampMillis i => i.time.Whole 1000
  | .timestampMicros, .timestampMicros i => i.time.Whole 1000000
  | .uuid, .uuid _ => True
  | .decimal, .decimal d => d.unscaled ≠ -(pow2 127 : Int)
  | .fixed, .fixed _ => True
  | .enum _ _ _, .enum _ => True
  | _, _ => False

theorem isScalar_of_keepsScalar {type : DeclaredType} {v : Value} (h : type.KeepsScalar v) :
    type.isScalar = true := by
  cases type <;> first | rfl | (cases v <;> exact absurd h id)

/-- The values of the exact shape of a type inside the record `owner`. -/
inductive Exact (records : List DeclaredRecord) : String → DeclaredType → Value → Prop
  | scalar {owner : String} {type : DeclaredType} {v : Value} :
      type.KeepsScalar v → Exact records owner type v
  | absent {owner : String} {inner : DeclaredType} : Exact records owner (.optional inner) .null
  | present {owner : String} {inner : DeclaredType} {v : Value} :
      Exact records owner inner v → Exact records owner (.optional inner) v
  | list {owner : String} {items : DeclaredType} {vs : List Value} :
      (∀ v ∈ vs, Exact records owner items v) → Exact records owner (.list items) (.array vs)
  | tuple {owner : String} {items : DeclaredType} {vs : List Value} :
      (∀ v ∈ vs, Exact records owner items v) → Exact records owner (.tuple items) (.array vs)
  | dict {owner : String} {values : DeclaredType} {entries : List (String × Value)} :
      (Keyed.keys entries).Pairwise (· < ·) → (∀ e ∈ entries, Exact records owner values e.2) →
      Exact records owner (.dict values) (.map entries)
  /-- Any fields of an instance may be missing. -/
  | record {owner name : String} {type : DeclaredType} {declared : DeclaredRecord}
      {fields : List (String × Value)} :
      type.record? owner = some name → records.find? (·.name = name) = some declared →
      (Keyed.keys fields).Sublist (declared.fields.map (·.name)) →
      (∀ e ∈ fields, ∀ f ∈ declared.fields, f.name = e.1 → Exact records name f.type e.2) →
      Exact records owner type (.record ⟨name, fields⟩)

/-- The types that a type leads to through its parts and the fields of records, each inside the
record that `self` stands for there. -/
inductive Leads (records : List DeclaredRecord) :
    String → DeclaredType → String → DeclaredType → Prop
  | refl {owner : String} {type : DeclaredType} : Leads records owner type owner type
  | list {owner owner' : String} {items type' : DeclaredType} :
      Leads records owner items owner' type' → Leads records owner (.list items) owner' type'
  | tuple {owner owner' : String} {items type' : DeclaredType} :
      Leads records owner items owner' type' → Leads records owner (.tuple items) owner' type'
  | dict {owner owner' : String} {values type' : DeclaredType} :
      Leads records owner values owner' type' → Leads records owner (.dict values) owner' type'
  | optional {owner owner' : String} {inner type' : DeclaredType} :
      Leads records owner inner owner' type' → Leads records owner (.optional inner) owner' type'
  | member {owner owner' : String} {members : List DeclaredType} {m type' : DeclaredType} :
      m ∈ members → Leads records owner m owner' type' →
      Leads records owner (.union members) owner' type'
  | field {owner name owner' : String} {type type' : DeclaredType} {declared : DeclaredRecord}
      {f : DeclaredField} :
      type.record? owner = some name → records.find? (·.name = name) = some declared →
      f ∈ declared.fields → Leads records name f.type owner' type' →
      Leads records owner type owner' type'

/-- What holds of every type that the type leads to, itself included. -/
def Throughout (records : List DeclaredRecord) (P : String → DeclaredType → Prop) (owner : String)
    (type : DeclaredType) : Prop :=
  ∀ owner' type', Leads records owner type owner' type' → P owner' type'

end DeclaredType

/-- The fields have distinct names, and none has the name of the key that names a record. -/
structure DeclaredRecord.Regular (d : DeclaredRecord) : Prop where
  distinct : (d.fields.map (·.name)).Nodup
  untagged : Conversion.tagKey ∉ d.fields.map (·.name)

/-! ### Reading back -/

namespace Conversion

open DeclaredType

/-- The encoding of a scalar of the exact shape is not null, unless the scalar is. -/
theorem toJson_ne_null_of_keepsScalar {type : DeclaredType} {v : Value} (h : type.KeepsScalar v)
    (hv : v ≠ .null) : v.toJson ≠ .null := by
  cases v with
  | null => exact absurd rfl hv
  | float32 x =>
      cases type <;> simp only [KeepsScalar] at h
      rw [Value.toJson, Value.finiteToJson, if_pos (Binary.widen_isFinite h)]
      exact Json.noConfusion
  | float64 x =>
      cases type <;> simp only [KeepsScalar] at h
      rw [Value.toJson, Value.finiteToJson, if_pos h]
      exact Json.noConfusion
  | _ =>
      rw [Value.toJson]
      exact Json.noConfusion

theorem exists_toInt64?_units {perSecond : Nat}
    (hd : perSecond * (1000000000 / perSecond) = 1000000000) (hp : perSecond ≤ 1000000)
    (t : TimeOfDay) :
    ∃ k, (Json.integer (t.units perSecond)).toInt64? = some k ∧ k.toInt = t.units perSecond := by
  have hpow : pow2 63 = 9223372036854775808 := by decide
  have hunits := TimeOfDay.units_lt hd t
  exact Json.exists_toInt64? ⟨by omega, by omega⟩

/-- Every number of milliseconds of an instant has 64 bits, and every number of microseconds. -/
theorem exists_toInt64?_instantUnits {perSecond : Nat}
    (hd : perSecond * (1000000000 / perSecond) = 1000000000)
    (hp : perSecond = 1000 ∨ perSecond = 1000000) (i : Instant) :
    ∃ k, (Json.integer (i.units perSecond)).toInt64? = some k ∧ k.toInt = i.units perSecond := by
  have hpow : pow2 63 = 9223372036854775808 := by decide
  have hcalendar := i.date.in_calendar
  have hseconds := i.time.seconds_lt
  have hnanos := TimeOfDay.nanos_div_lt hd 2 i.time.nanos_lt
  refine Json.exists_toInt64? ?_
  rw [Instant.units, Instant.unixSeconds, hpow]
  generalize i.time.nanos / (1000000000 / perSecond) = n at hnanos ⊢
  rcases hp with rfl | rfl
  · omega
  · omega

theorem timeOf?_units {perSecond : Nat}
    (hd : perSecond * (1000000000 / perSecond) = 1000000000) (hp : perSecond ≤ 1000000)
    {t : TimeOfDay} (h : t.Whole perSecond) :
    timeOf? perSecond (.integer (t.units perSecond)) = some t := by
  obtain ⟨k, hk, hkn⟩ := exists_toInt64?_units hd hp t
  rw [timeOf?, hk, Option.bind_some, hkn]
  · exact (TimeOfDay.ofUnits?_eq_some_iff hd).mpr ⟨h, rfl⟩
  · exact fun s hs => Json.noConfusion hs

theorem instantOf?_units {perSecond : Nat}
    (hd : perSecond * (1000000000 / perSecond) = 1000000000)
    (hp : perSecond = 1000 ∨ perSecond = 1000000) {i : Instant} (h : i.time.Whole perSecond) :
    instantOf? perSecond (.integer (i.units perSecond)) = some i := by
  obtain ⟨k, hk, hkn⟩ := exists_toInt64?_instantUnits hd hp i
  rw [instantOf?, hk, Option.bind_some, hkn]
  · exact (Instant.ofUnits?_eq_some_iff hd).mpr ⟨h, rfl⟩
  · exact fun s hs => Json.noConfusion hs

/-- A scalar of the exact shape of its type is read back. -/
theorem scalar_toJson {type : DeclaredType} {v : Value} (h : type.KeepsScalar v)
    (hv : v ≠ .null) : scalar type v.toJson = .ok (some v) := by
  cases type <;> cases v <;> simp only [KeepsScalar] at h
  case null.null => exact absurd rfl hv
  all_goals rw [Value.toJson, scalar]
  case boolean.boolean b => rfl
  case int32.int32 n => rw [int32Of?_toInt, Option.map_some]
  case int64.int64 n => rw [Json.toInt64?_toInt, Option.map_some]
  case float32.float32 x =>
      rw [Value.finiteToJson, if_pos (Binary.widen_isFinite h), Json.toBinary64?, Option.map_some,
        Binary.narrow_widen h]
  case float64.float64 x =>
      rw [Value.finiteToJson, if_pos h, Json.toBinary64?, Option.map_some]
  case bytes.bytes bs => rw [ofString?, bytesOf?_byteChars, Option.map_some]
  case string.string s => rfl
  case date.date d =>
      rw [dateOf_day]
      rfl
  case timeMillis.timeMillis t =>
      rw [timeOf?_units (by decide) (by decide) h, Option.map_some]
  case timeMicros.timeMicros t =>
      rw [timeOf?_units (by decide) (by decide) h, Option.map_some]
  case timestampMillis.timestampMillis i =>
      rw [instantOf?_units (by decide) (Or.inl rfl) h, Option.map_some]
  case timestampMicros.timestampMicros i =>
      rw [instantOf?_units (by decide) (Or.inr rfl) h, Option.map_some]
  case uuid.uuid u => rw [ofString?, String.toList_ofList, Uuid.parse_text, Option.map_some]
  case decimal.decimal d =>
      rw [ofString?, String.toList_ofList, Decimal.parse_text d h, Option.map_some]
  case fixed.fixed bs => rw [ofString?, bytesOf?_byteChars, Option.map_some]
  case enum.enum name symbols default symbol => rfl

section

variable (records : List DeclaredRecord)

/-- A type without parts converts by itself what is not null. -/
theorem convert_scalar (owner : String) {raw : Json} {type : DeclaredType}
    (hs : type.isScalar = true) (hraw : raw = .null → type.takesNull = false) (place : Place) :
    convert records owner raw type place = convertScalar raw type place := by
  have hnull : raw = .null → type.takesNull = true → False := by
    intro hr ht
    rw [hraw hr] at ht
    cases ht
  cases type <;> try cases hs
  all_goals
    rw [convert]
    · exact hnull
    all_goals simp

/-- What is written is read as the value for the type, wherever it stands. -/
def Reads (owner : String) (type : DeclaredType) (raw : Json) (v : Value) : Prop :=
  ∀ place, convert records owner raw type place = .ok v

theorem Reads.scalar {records : List DeclaredRecord} {owner : String} {type : DeclaredType}
    {raw : Json} {v : Value} (htype : type.isScalar = true) (hraw : raw ≠ .null)
    (h : Conversion.scalar type raw = .ok (some v)) : Reads records owner type raw v := by
  intro place
  rw [convert_scalar records owner htype fun hnull => absurd hnull hraw, convertScalar, h]

theorem reads_of_keepsScalar {owner : String} {type : DeclaredType} {v : Value}
    (h : type.KeepsScalar v) (hv : v ≠ .null) : Reads records owner type v.toJson v :=
  .scalar (isScalar_of_keepsScalar h) (toJson_ne_null_of_keepsScalar h hv) (scalar_toJson h hv)

theorem convertItems_toJson {owner : String} {type : DeclaredType} {vs : List Value}
    {f : Value → Value} (h : ∀ v ∈ vs, Reads records owner type v.toJson (f v)) (place : Place)
    (index : Nat) :
    convertItems records owner (Value.toJsonItems vs) type place index = .ok (vs.map f) := by
  induction vs generalizing index with
  | nil => rw [Value.toJsonItems, convertItems, List.map_nil]
  | cons v vs ih =>
      rw [Value.toJsonItems, convertItems, h v (List.mem_cons_self ..),
        ih (fun w hw => h w (List.mem_cons_of_mem _ hw))]
      rfl

/-- The encoded entries of a map are read when each value is. -/
theorem convertEntries_toJson {owner : String} {type : DeclaredType}
    {entries : List (String × Value)} {f : String × Value → Value}
    (h : ∀ e ∈ entries, Reads records owner type e.2.toJson (f e)) (place : Place) :
    convertEntries records owner (Value.toJsonMembers entries) type place =
      .ok (entries.map fun e => (e.1, f e)) := by
  induction entries with
  | nil => rw [Value.toJsonMembers, convertEntries, List.map_nil]
  | cons e entries ih =>
      obtain ⟨k, v⟩ := e
      rw [Value.toJsonMembers, convertEntries, h (k, v) (List.mem_cons_self ..),
        ih fun w hw => h w (List.mem_cons_of_mem _ hw)]
      rfl

theorem convert_object (owner : String) {name : String} {type : DeclaredType}
    (h : type.record? owner = some name) (members : List (String × Json)) (place : Place) :
    convert records owner (.object members) type place =
      convertObject records name members place := by
  cases type <;> cases h
  all_goals rw [convert]

end

/-- Nothing keeps an object from being an instance of a record when it names no other record and its
keys are names of fields. -/
theorem objectFault?_of_subset {name : String} {declared : List DeclaredField}
    {members : List (String × Json)} (htag : ∀ tag, tagOf? members = some tag → tag = name)
    (hkeys : Keyed.keys members ⊆ declared.map (·.name)) :
    objectFault? name declared members = none := by
  have hother : (tagOf? members).filter (· ≠ name) = none := by
    rw [Option.filter_eq_none_iff]
    intro tag h
    simpa using htag tag h
  rw [objectFault?, hother]
  dsimp only
  rw [Option.map_eq_none_iff, List.find?_eq_none]
  intro k hk hunknown
  obtain ⟨f, hf, rfl⟩ := List.mem_map.mp (hkeys hk)
  simp only [Bool.and_eq_true, Bool.not_eq_true', List.any_eq_false] at hunknown
  exact hunknown.2 f hf (by simp)

/-- Null is not converted for a type that takes no null, unless it is a union. -/
theorem convert_null_ne_ok {records : List DeclaredRecord} {owner : String} {type : DeclaredType}
    (hnull : type.takesNull = false) (hunion : ∀ members, type ≠ .union members) (place : Place)
    (v : Value) : convert records owner .null type place ≠ .ok v := by
  cases type with
  | list items | tuple items =>
      rw [convert.eq_def]
      simp only [hnull]
      rw [convertArray.eq_def]
      exact nofun
  | dict values | record name | self =>
      rw [convert.eq_def]
      simp only [hnull]
      exact nofun
  | union members => exact absurd rfl (hunion members)
  | optional inner => cases hnull
  | null => cases hnull
  | _ =>
      rw [convert_scalar records owner rfl fun _ => hnull]
      exact nofun

end Conversion

end RecordModel
