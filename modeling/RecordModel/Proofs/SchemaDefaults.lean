/-
**Written defaults suit the schemas beside them.**

A schema states the default of a field as JSON next to the schema of the field.  Whether a JSON
value is one of a schema is a matter of the tree alone: whole numbers have to lie within the width
that the type has, bytes are texts of small characters, a union takes what one of its members takes,
and a reference what is defined in the tree under the full name.  The default of a field is held to
more: a union right at the field has to take it by its first member.

Three things meet here: the check of a default, which looks at the value and its type, the order in
which the alternatives of a field are written, which depends on the default, and the encoding of
values.

Main definitions:

* `Primitive.Takes`, `Logical.Takes`, `Schema.Takes` — the JSON values of a schema;
* `Schema.TakesDefault` — the defaults that may stand next to a schema.

Main results:

* `Primitive.takes_of_accepts`, `Logical.takes_of_accepts` — the encoding of a value of a type is one
  of its schema;
* `Schema.takes_of_accepts` — the same for a schema that renders a type;
* `Schema.ofRecord_takesDefaults` — **in a strict schema of a record every default suits the schema
  beside it**.
-/

import RecordModel.Proofs.ExactNumbers
import RecordModel.Proofs.Rearranged
import RecordModel.Proofs.ScalarEncodings
import RecordModel.Proofs.SchemaValues

set_option relaxedAutoImplicit false
set_option autoImplicit false

namespace RecordModel

/-! ### JSON values of types -/

/-- The number has so many bits, the sign among them. -/
def InWidth (bits : Nat) (n : Int) : Prop := -(pow2 (bits - 1) : Int) ≤ n ∧ n < pow2 (bits - 1)

namespace Json

/-- The value is a whole number of so many bits. -/
def IsWhole (bits : Nat) (j : Json) : Prop := ∃ n, j = .integer n ∧ InWidth bits n

/-- The value is a number. -/
def IsFiniteNumber : Json → Prop
  | .integer _ => True
  | .float x => x.isFinite = true
  | _ => False

/-- The value is a text of characters that stand for bytes. -/
def IsByteText (j : Json) : Prop := ∃ s, j = .string s ∧ ∀ c ∈ s.toList, c.toNat < 256

end Json

/-- The JSON values of a primitive type. -/
def Primitive.Takes : Primitive → Json → Prop
  | .null, j => j = .null
  | .boolean, j => ∃ b, j = .boolean b
  | .int32, j => j.IsWhole 32
  | .int64, j => j.IsWhole 64
  | .float32, j => j.IsFiniteNumber
  | .float64, j => j.IsFiniteNumber
  | .bytes, j => j.IsByteText
  | .string, j => ∃ s, j = .string s

/-- The JSON values of a logical type: those of its carrier, and any text for a decimal. -/
def Logical.Takes : Logical → Json → Prop
  | .decimal _ _, j => ∃ s, j = .string s
  | kind, j => kind.carrier.Takes j

/-- The JSON values of a schema, which stands in the tree `T`. -/
inductive Schema.Takes (T : Schema) : Schema → Json → Prop
  | primitive {kind : Primitive} {j : Json} : kind.Takes j → Takes T (.primitive kind) j
  | logical {kind : Logical} {j : Json} : kind.Takes j → Takes T (.logical kind) j
  | fixed {type : FixedBytes} {s : String} :
      (Json.string s).IsByteText → s.toList.length = type.size → Takes T (.fixed type) (.string s)
  | enum {type : Enumeration} {symbol : String} :
      symbol ∈ type.symbols → Takes T (.enum type) (.string symbol)
  | array {items : Schema} {js : List Json} :
      (∀ j ∈ js, Takes T items j) → Takes T (.array items) (.array js)
  | map {values : Schema} {members : List (String × Json)} :
      (∀ e ∈ members, Takes T values e.2) → Takes T (.map values) (.object members)
  | union {members : List Schema} {m : Schema} {j : Json} :
      m ∈ members → Takes T m j → Takes T (.union members) j
  | record {r : RecordSchema Schema} {members : List (String × Json)} :
      Takes T (.record r) (.object members)
  /-- A reference takes what a schema takes that is defined in the tree under the full name. -/
  | reference {full b : String} {type : NamedType} {path : List Nat} {space : Option String}
      {n : Schema} {j : Json} :
      T.place? none path = some (space, n) → n.defines space = some (b, ⟨full, type⟩) →
      Takes T n j → Takes T (.reference full) j

/-- The defaults that may stand next to a schema: a union takes them by its first member. -/
def Schema.TakesDefault (T : Schema) : Schema → Json → Prop
  | .union members, j => ∃ first, members.head? = some first ∧ T.Takes first j
  | n, j => T.Takes n j

/-! ### Encoded values -/

theorem Value.toNat_lt_of_mem_byteChars {bs : List UInt8} {c : Char}
    (h : c ∈ Value.byteChars bs) : c.toNat < 256 := by
  obtain ⟨b, -, rfl⟩ := List.mem_map.mp h
  rw [Value.toNat_byteChar]
  exact b.toNat_lt

theorem Value.isByteText_byteChars (bs : List UInt8) :
    (Json.string (String.ofList (Value.byteChars bs))).IsByteText :=
  ⟨_, rfl, fun c hc => Value.toNat_lt_of_mem_byteChars (by simpa using hc)⟩

theorem Value.isFiniteNumber_finiteToJson {x : Binary64} (h : x.isFinite = true) :
    (Value.finiteToJson x).IsFiniteNumber := by
  rw [Value.finiteToJson, if_pos h]
  exact h

/-- The encoding of a value of a primitive type is one of its JSON values. -/
theorem Primitive.takes_of_accepts {kind : Primitive} {v : Value} (h : kind.accepts v = true) :
    kind.Takes v.toJson := by
  have hint32 (n : Int32) : InWidth 32 n.toInt := ⟨n.le_toInt, n.toInt_lt⟩
  have hint64 (n : Int64) : InWidth 64 n.toInt := ⟨n.le_toInt, n.toInt_lt⟩
  cases kind <;> cases v <;> simp only [accepts, Bool.false_eq_true, Bool.and_eq_true] at h <;>
    rw [Value.toJson]
  case null.null => exact rfl
  case boolean.boolean b => exact ⟨b, rfl⟩
  case int32.int32 n => exact ⟨_, rfl, hint32 n⟩
  case int64.int64 n => exact ⟨_, rfl, hint64 n⟩
  case int64.int32 n =>
      obtain ⟨hlow, hhigh⟩ := hint32 n
      have hp : pow2 (32 - 1) ≤ pow2 (64 - 1) := by decide
      exact ⟨_, rfl, by omega, by omega⟩
  case float32.float32 x => exact Value.isFiniteNumber_finiteToJson (Binary.widen_isFinite h)
  case float32.float64 x => exact Value.isFiniteNumber_finiteToJson h.1
  case float64.float64 x => exact Value.isFiniteNumber_finiteToJson h
  case float64.float32 x => exact Value.isFiniteNumber_finiteToJson (Binary.widen_isFinite h)
  case bytes.bytes bs => exact Value.isByteText_byteChars bs
  case string.string s => exact ⟨s, rfl⟩

/-- The encoding of a value of a logical type is one of its JSON values. -/
theorem Logical.takes_of_accepts {kind : Logical} {v : Value} (h : kind.accepts v = true) :
    kind.Takes v.toJson := by
  have h31 : pow2 (32 - 1) = 2147483648 := by decide
  have h63 : pow2 (64 - 1) = 9223372036854775808 := by decide
  have hmillis (t : TimeOfDay) : t.units 1000 < 86401 * 1000 := TimeOfDay.units_lt (by decide) t
  have hmicros (t : TimeOfDay) : t.units 1000000 < 86401 * 1000000 :=
    TimeOfDay.units_lt (by decide) t
  cases kind <;> cases v <;> simp only [accepts, Bool.false_eq_true] at h <;> rw [Value.toJson]
  case date.date d =>
      obtain ⟨hlow, hhigh⟩ := d.in_calendar
      exact ⟨_, rfl, by omega, by omega⟩
  case timeMillis.timeMillis t =>
      have := hmillis t
      exact ⟨_, rfl, by omega, by omega⟩
  case timeMicros.timeMicros t =>
      have := hmicros t
      exact ⟨_, rfl, by omega, by omega⟩
  case timestampMillis.timestampMillis i =>
      obtain ⟨hlow, hhigh⟩ := i.date.in_calendar
      have := hmillis i.time
      refine ⟨_, rfl, ?_, ?_⟩ <;>
        simp only [Instant.units, Instant.unixSeconds, TimeOfDay.units] at this ⊢ <;> omega
  case timestampMicros.timestampMicros i =>
      obtain ⟨hlow, hhigh⟩ := i.date.in_calendar
      have := hmicros i.time
      refine ⟨_, rfl, ?_, ?_⟩ <;>
        simp only [Instant.units, Instant.unixSeconds, TimeOfDay.units] at this ⊢ <;> omega
  case uuid.uuid u => exact ⟨_, rfl⟩
  case decimal.decimal d => exact ⟨_, rfl⟩

/-! ### Schemas that render types -/

section

variable {answer : String → Except Error Record} {name : String} {T : Schema}

/-- A value of what renders a type in full is one of what renders the type. -/
theorem Schema.takes_of_heads (ha : Settled answer)
    (hT : Renders answer [] none (.reference name) T) {d : Descriptor} {j : Json}
    (h : ∀ before space n, Heads answer d n → Renders answer before space d n →
      before ++ n.definitions space ⊆ T.definitions none → T.Takes n j)
    {before : List (String × NamedDefinition)} {space : Option String} {n : Schema}
    (hn : Renders answer before space d n)
    (hsub : before ++ n.definitions space ⊆ T.definitions none) : T.Takes n j :=
  Renders.of_heads ha hT (P := fun n => T.Takes n j)
    (fun _ _ _ _ _ _ hplace hdefines hj => .reference hplace hdefines hj) h hn hsub

/-- The encoding of a value of a type is a JSON value of what renders the type, in the schema of a
record. -/
theorem Schema.takes_of_accepts (ha : Settled answer)
    (hT : Renders answer [] none (.reference name) T) {d : Descriptor} {v : Value}
    (hv : d.accepts v = true) {before : List (String × NamedDefinition)} {space : Option String}
    {n : Schema} (hn : Renders answer before space d n)
    (hsub : before ++ n.definitions space ⊆ T.definitions none) : T.Takes n v.toJson := by
  -- induction on the type; at each one a reference leads to a schema that states it in full
  induction d using Descriptor.induction_alternatives generalizing v before space n with
  | primitive kind =>
      refine takes_of_heads ha hT (fun _ _ n hheads _ _ => ?_) hn hsub
      cases hheads with
      | primitive =>
          rw [Descriptor.accepts] at hv
          exact .primitive (Primitive.takes_of_accepts hv)
      | union _ hu => cases hu
  | logical kind =>
      refine takes_of_heads ha hT (fun _ _ n hheads _ _ => ?_) hn hsub
      cases hheads with
      | logical =>
          rw [Descriptor.accepts] at hv
          exact .logical (Logical.takes_of_accepts hv)
      | union _ hu => cases hu
  | fixed type =>
      refine takes_of_heads ha hT (fun _ _ n hheads _ _ => ?_) hn hsub
      cases hheads with
      | fixed =>
          cases v with
          | fixed bs =>
              rw [Value.toJson]
              refine .fixed (Value.isByteText_byteChars bs) ?_
              simpa [Descriptor.accepts] using hv
          | _ => simp [Descriptor.accepts] at hv
      | union _ hu => cases hu
  | enum type =>
      refine takes_of_heads ha hT (fun _ _ n hheads _ _ => ?_) hn hsub
      cases hheads with
      | enum =>
          cases v with
          | enum symbol =>
              rw [Value.toJson]
              exact .enum (by simpa [Descriptor.accepts] using hv)
          | _ => simp [Descriptor.accepts] at hv
      | union _ hu => cases hu
  | array items ih =>
      refine takes_of_heads ha hT (fun before space n hheads hn hsub => ?_) hn hsub
      obtain ⟨m, before', hm, hrenders, hsub'⟩ := hn.part hheads (i := 0) rfl
      cases hheads with
      | array _ n' =>
          cases hm
          cases v with
          | array vs =>
              rw [Descriptor.accepts_array, List.all_eq_true] at hv
              rw [Value.toJson, Value.toJsonItems_eq_map]
              refine .array fun j hj => ?_
              obtain ⟨w, hw, rfl⟩ := List.mem_map.mp hj
              exact ih (hv w hw) hrenders fun x hx => hsub (hsub' hx)
          | _ => simp [Descriptor.accepts] at hv
      | union _ hu => cases hu
  | map values ih =>
      refine takes_of_heads ha hT (fun before space n hheads hn hsub => ?_) hn hsub
      obtain ⟨m, before', hm, hrenders, hsub'⟩ := hn.part hheads (i := 0) rfl
      cases hheads with
      | map _ n' =>
          cases hm
          cases v with
          | map entries =>
              rw [Descriptor.accepts_map, List.all_eq_true] at hv
              rw [Value.toJson, Value.toJsonMembers_eq_map, Json.ofMembers]
              refine .map fun e he => ?_
              obtain ⟨w, hw, rfl⟩ := List.mem_map.mp (Keyed.mem_ofArrivals he)
              exact ih (hv w hw) hrenders fun x hx => hsub (hsub' hx)
          | _ => simp [Descriptor.accepts] at hv
      | union _ hu => cases hu
  | choice d hd ih =>
      obtain ⟨m, hm, hv⟩ := (Descriptor.accepts_iff_alternatives d v).mp hv
      refine takes_of_heads ha hT (fun before space n hheads hn hsub => ?_) hn hsub
      have hchild := hm
      rw [← Descriptor.children_of_hasAlternatives answer hd] at hchild
      obtain ⟨i, hi⟩ := List.mem_iff_getElem?.mp hchild
      obtain ⟨n', before', hn', hrenders, hsub'⟩ := hn.part hheads hi
      cases hheads with
      | union members _ =>
          exact .union (List.mem_of_getElem? hn') (ih m hm hv hrenders fun x hx => hsub (hsub' hx))
      | _ => cases hd
  | reference owner =>
      obtain ⟨i, rfl, -⟩ := (Descriptor.accepts_reference owner v).mp hv
      refine takes_of_heads ha hT (fun _ _ n hheads _ _ => ?_) hn hsub
      cases hheads with
      | record _ _ =>
          obtain ⟨record, fields⟩ := i
          rw [Value.toJson, Json.ofMembers]
          exact .record
      | union _ hu => cases hu

theorem Renders.hasAlternatives_of_union {before : List (String × NamedDefinition)}
    {space : Option String} {d : Descriptor} {n : Schema} {members : List Schema}
    (hn : Renders answer before space d n) (hunion : n = .union members) :
    d.hasAlternatives = true := by
  subst hunion
  cases hn with
  | full hheads _ _ _ =>
      cases hheads with
      | union _ hd => exact hd

/-- The encoding of a right default may stand next to what renders the written type of a field. -/
theorem Schema.takesDefault_of_suits (ha : Settled answer)
    (hT : Renders answer [] none (.reference name) T) {f : Field} {v : Value}
    (hd : f.default = some v) (hv : f.type.Suits v true)
    {before : List (String × NamedDefinition)} {space : Option String} {n : Schema}
    (hn : Renders answer before space f.writtenType n)
    (hsub : before ++ n.definitions space ⊆ T.definitions none) : T.TakesDefault n v.toJson := by
  unfold Field.writtenType at hn
  unfold Descriptor.Suits at hv
  split at hn
  · -- a union is no reference, and its first member renders the alternative that is written first
    rename_i halt
    rw [if_pos ⟨halt, rfl⟩, ← hd] at hv
    obtain ⟨m, hm, haccepts⟩ := hv
    cases hn with
    | back hnamed _ => cases hnamed
    | full hheads hfresh hlen hparts =>
        rw [List.head?_eq_getElem?] at hm
        have hchild : ((Descriptor.union (writtenAlternatives f.type f.default)).children
            answer)[0]? = some m := hm
        obtain ⟨first, before', hfirst, hrenders, hsub'⟩ :=
          (Renders.full hheads hfresh hlen hparts).part hheads hchild
        cases hheads with
        | union members _ =>
            refine ⟨first, ?_, ?_⟩
            · rw [List.head?_eq_getElem?]
              exact hfirst
            · exact takes_of_accepts ha hT haccepts hrenders fun x hx => hsub (hsub' hx)
  · rename_i halt
    rw [if_neg (fun h => halt h.1)] at hv
    have htakes := takes_of_accepts ha hT hv hn hsub
    cases n with
    | union members => exact absurd (hn.hasAlternatives_of_union rfl) halt
    | _ => exact htakes

theorem RecordSchema.exists_field_of_outline {r : RecordSchema Schema} {record : Record}
    (h : r.outline = record.outline) {i : Nat} {m : FieldSchema Schema}
    (hm : r.fields[i]? = some m) :
    ∃ f, record.fields[i]? = some f ∧ m.default = f.default.map Value.toJson := by
  have hfields : r.fields.map FieldSchema.outline = record.fields.map Field.outline :=
    congrArg RecordSchema.fields h
  have hi := congrArg (fun l => l[i]?) hfields
  simp only [List.getElem?_map, hm, Option.map_some] at hi
  obtain ⟨f, hf, hout⟩ := Option.map_eq_some_iff.mp hi.symm
  exact ⟨f, hf, (congrArg FieldSchema.default hout).symm⟩

end

/-! ### The schema of a record -/

/-- **In a strict schema of a record every default suits the schema beside it.** -/
theorem Schema.ofRecord_takesDefaults {r r' : Registry} (hr : r.Reached) {name : String}
    {T : Schema} (hrun : (ofRecord true name).run r = (.ok T, r')) :
    ∀ path rs, T.recordAt? path = some rs → ∀ m ∈ rs.fields, ∀ j, m.default = some j →
      T.TakesDefault m.type j := by
  intro path rs hrs m hm j hj
  have ha := hr.settled
  obtain ⟨-, hT⟩ := ofRecord_renders ha hrun
  have hbuildable := buildable_of_run ha hrun
  obtain ⟨space, before, hat, hrenders, hsub⟩ := renders_of_recordAt? ha hT hrs
  have hreach := (Descriptor.Reaches.of_at? hat .reference_self).reachable
  cases hrenders.heads_record with
  | @record _ record _ hrecord ho =>
      obtain ⟨i, hi⟩ := List.mem_iff_getElem?.mp hm
      obtain ⟨f, hf, hdefault⟩ := RecordSchema.exists_field_of_outline ho hi
      rw [hj] at hdefault
      obtain ⟨v, hv, rfl⟩ := Option.map_eq_some_iff.mp hdefault.symm
      have hcheck := hbuildable.defaults rs.name record hreach hrecord f (List.mem_of_getElem? hf)
      have hsuits := (checkDefault_eq_ok_iff _ _ _).mp hcheck v hv
      have hpart : ((Descriptor.reference rs.name).children r.answer)[i]? = some f.writtenType := by
        rw [Descriptor.children_reference hrecord, List.getElem?_map, hf, Option.map_some]
      obtain ⟨n, before', hn, hfield, hsub'⟩ := hrenders.part hrenders.heads_record hpart
      rw [Schema.children, List.getElem?_map, hi] at hn
      cases hn
      exact takesDefault_of_suits ha hT hv hsuits hfield fun x hx => hsub (hsub' hx)

/-- A record with an optional text that is not null by default: null is written last. -/
def paintDeclaration : DeclaredRecord :=
  ⟨"Paint", none, none, [], [
    ⟨"shade", .optional .string, some (.value (.string "grey")),
      ⟨none, none, none, none, none, []⟩⟩]⟩

/-- The registry with that record. -/
def paintRegistry : Registry := ((Registry.declare paintDeclaration).run Registry.empty).2

/-- The schema of that record. -/
def Schema.ofPaint : Schema :=
  .record ⟨"Paint", none, none, [], [
    ⟨"shade", .union [.primitive .string, .primitive .null], some (.string "grey"), none, []⟩]⟩

/-- The default shade suits the union that is written beside it. -/
theorem Schema.ofPaint_takesDefault :
    paintRegistry.Reached ∧
      (∃ r', (ofRecord true "Paint").run paintRegistry = (.ok ofPaint, r')) ∧
      ofPaint.TakesDefault (.union [.primitive .string, .primitive .null]) (.string "grey") := by
  have hreached : paintRegistry.Reached := .declare _ (.new none)
  have hrun : ∃ r', (ofRecord true "Paint").run paintRegistry = (.ok ofPaint, r') :=
    ⟨_, by with_unfolding_all rfl⟩
  obtain ⟨r', hr'⟩ := hrun
  exact ⟨hreached, ⟨r', hr'⟩,
    ofRecord_takesDefaults hreached hr' [] _ rfl _ (List.mem_singleton_self _) _ rfl⟩

end RecordModel
