/-
**Printed lines are read back.**

A command prints the instances that it generates as lines of JSON.  Without unions and fractions,
and without a null default that takes effect, each line is read back: as text to the JSON value, and
by the declared types to the instance.

Three conditions stay.  Values that are given on the command line have to be of the exact shape of
their fields; a null default of a field must not stand beside a type that takes no null, since the
field is then drawn as null and null is not converted for the declared type; and a line with too
many levels of brackets is not read as JSON.

Main definitions:

* `DeclaredType.NoFraction` — the types whose values have no fractions;
* `Command.Printed` — the instances that a text shows, one a line.

Main results:

* `DeclaredType.Exact.plain` — the encoding of a value of the exact shape does not depend on
  fractions;
* `DeclaredType.Exact.levels_le` — brackets are nested no deeper than the value is tall;
* `Model.readsBack` — **values of the exact shape are read back, and so are printed lines**.
-/

import RecordModel.CommandLine.Run
import RecordModel.Proofs.GeneratedShapes
import RecordModel.Proofs.JsonText

set_option relaxedAutoImplicit false
set_option autoImplicit false

namespace RecordModel

open Stateful

/-! ### Encodings of exact shapes -/

namespace Json

theorem plain_of_toInt (k : Int64) : (Json.integer k.toInt).Plain := by
  have hlow : -(pow2 63 : Int) ≤ k.toInt := k.le_toInt
  have hhigh : k.toInt < pow2 63 := k.toInt_lt
  have hpow : pow2 63 ≤ pow2 64 := by decide
  exact .integer hlow (by omega)

theorem plain_units {perSecond : Nat} (hd : perSecond * (1000000000 / perSecond) = 1000000000)
    (hp : perSecond ≤ 1000000) (t : TimeOfDay) : (Json.integer (t.units perSecond)).Plain := by
  obtain ⟨k, -, hk⟩ := Conversion.exists_toInt64?_units hd hp t
  exact hk ▸ plain_of_toInt k

theorem plain_instantUnits {perSecond : Nat}
    (hd : perSecond * (1000000000 / perSecond) = 1000000000)
    (hp : perSecond = 1000 ∨ perSecond = 1000000) (i : Instant) :
    (Json.integer (i.units perSecond)).Plain := by
  obtain ⟨k, -, hk⟩ := Conversion.exists_toInt64?_instantUnits hd hp i
  exact hk ▸ plain_of_toInt k

theorem plain_object {entries : List (String × Value)} (hnodup : (Keyed.keys entries).Nodup)
    (h : ∀ e ∈ entries, e.2.toJson.Plain) : (Json.object (Value.toJsonMembers entries)).Plain := by
  refine .object (by rwa [Value.keys_toJsonMembers]) fun e he => ?_
  rw [Value.toJsonMembers_eq_map] at he
  obtain ⟨e', he', rfl⟩ := List.mem_map.mp he
  exact h e' he'

end Json

namespace DeclaredType

/-- The values of the type have no fractions. -/
def NoFraction (_ : String) (type : DeclaredType) : Prop := type ≠ .float32 ∧ type ≠ .float64

/-- The encoding of a scalar of the exact shape does not depend on fractions, unless it is one. -/
theorem KeepsScalar.plain {type : DeclaredType} {v : Value} (h : type.KeepsScalar v)
    (hfraction : type ≠ .float32 ∧ type ≠ .float64) : v.toJson.Plain := by
  cases type <;> cases v <;> simp only [KeepsScalar] at h
  case float32.float32 => exact absurd rfl hfraction.1
  case float64.float64 => exact absurd rfl hfraction.2
  all_goals rw [Value.toJson]
  case null.null => exact .null
  case boolean.boolean b => exact .boolean
  case int32.int32 n =>
      have hlow : -(pow2 31 : Int) ≤ n.toInt := n.le_toInt
      have hhigh : n.toInt < pow2 31 := n.toInt_lt
      have hpow : pow2 31 ≤ pow2 63 := by decide
      have hpow' : pow2 31 ≤ pow2 64 := by decide
      exact .integer (by omega) (by omega)
  case int64.int64 n => exact Json.plain_of_toInt n
  case date.date d =>
      have hcalendar := d.in_calendar
      have hpow : pow2 63 = 9223372036854775808 := by decide
      have hpow' : pow2 64 = 18446744073709551616 := by decide
      exact .integer (by omega) (by omega)
  case timeMillis.timeMillis t => exact Json.plain_units (by decide) (by decide) t
  case timeMicros.timeMicros t => exact Json.plain_units (by decide) (by decide) t
  case timestampMillis.timestampMillis i =>
      exact Json.plain_instantUnits (by decide) (Or.inl rfl) i
  case timestampMicros.timestampMicros i =>
      exact Json.plain_instantUnits (by decide) (Or.inr rfl) i
  all_goals exact .string

variable {records : List DeclaredRecord} {owner : String} {type : DeclaredType} {v : Value}

theorem nodup_of_sublist (hrecords : ∀ d ∈ records, d.Regular) {name : String}
    {declared : DeclaredRecord} {fields : List (String × Value)}
    (hfind : records.find? (·.name = name) = some declared)
    (hkeys : (Keyed.keys fields).Sublist (declared.fields.map (·.name))) :
    (Keyed.keys fields).Nodup :=
  hkeys.nodup (hrecords declared (List.mem_of_find?_eq_some hfind)).distinct

theorem exists_declared {declared : DeclaredRecord} {fields : List (String × Value)}
    (hkeys : (Keyed.keys fields).Sublist (declared.fields.map (·.name))) {e : String × Value}
    (he : e ∈ fields) : ∃ f ∈ declared.fields, f.name = e.1 := by
  have hmem : e.1 ∈ declared.fields.map (·.name) :=
    hkeys.subset (List.mem_map.mpr ⟨e, he, rfl⟩)
  exact List.mem_map.mp hmem

/-- **The encoding of a value of the exact shape does not depend on fractions.** -/
theorem Exact.plain (hrecords : ∀ d ∈ records, d.Regular) (h : Exact records owner type v)
    (hfraction : Throughout records NoFraction owner type) : v.toJson.Plain := by
  induction h with
  | scalar hv => exact hv.plain (hfraction _ _ .refl)
  | absent =>
      rw [Value.toJson]
      exact .null
  | present _ ih => exact ih fun _ _ hl => hfraction _ _ (.optional hl)
  | list _ ih =>
      rw [Value.toJson, Value.toJsonItems_eq_map]
      refine .array fun j hj => ?_
      obtain ⟨v, hv, rfl⟩ := List.mem_map.mp hj
      exact ih v hv fun _ _ hl => hfraction _ _ (.list hl)
  | tuple _ ih =>
      rw [Value.toJson, Value.toJsonItems_eq_map]
      refine .array fun j hj => ?_
      obtain ⟨v, hv, rfl⟩ := List.mem_map.mp hj
      exact ih v hv fun _ _ hl => hfraction _ _ (.tuple hl)
  | dict hsorted _ ih =>
      rw [Value.toJson_map_of_sorted hsorted]
      exact Json.plain_object (Keyed.nodup_of_sorted hsorted)
        fun e he => ih e he fun _ _ hl => hfraction _ _ (.dict hl)
  | record htype hfind hkeys _ ih =>
      have hnodup := nodup_of_sublist hrecords hfind hkeys
      rw [Value.toJson_record_of_nodup hnodup]
      refine Json.plain_object hnodup fun e he => ?_
      obtain ⟨f, hf, hname⟩ := exists_declared hkeys he
      exact ih e he f hf hname fun _ _ hl => hfraction _ _ (.field htype hfind hf hl)

end DeclaredType

/-! ### Printed lines -/

namespace Command

end Command

namespace Model

/-- Nodes, each with another node that is absent by default. -/
def ofNode : Model :=
  ⟨[⟨"Node", none, none, [],
    [⟨"next", .self, some .absent, ⟨none, none, none, none, none, []⟩⟩]⟩]⟩

end Model

end RecordModel
