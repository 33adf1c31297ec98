/-
**Well-formed declarations.**

Settling a declaration checks it on the way: a decimal and fixed bytes where their attributes are put
into the type, a union where its members have been spliced together, a default where the type of its
field is known.  What all these checks come to can be said of the declaration beforehand, at every
place of its types by itself.  A declaration is settled exactly when it is well formed in this sense,
and the record lists its fields as they were declared.

Main definitions:

* `DeclaredType.Within` — the types that stand in a declared type;
* `DeclaredType.identity` — what two members of a union must not share, said of declared types;
* `DeclaredType.WellFormed`, `DeclaredField.WellFormed`, `DeclaredRecord.WellFormed` — what is asked
  of a declaration;
* `DeclaredField.Becomes`, `DeclaredRecord.Becomes` — how a field and a record follow their
  declarations.

Main results:

* `Descriptor.ofDecimal_eq_ok_iff` and its siblings — the checks of single types;
* `DeclaredType.exists_ofDeclared_iff` — the declared types that settle;
* `DeclaredField.exists_ofDeclaration_iff` — the declared fields that settle;
* `Record.settles_iff_wellFormed` — **a declaration settles exactly when it is well formed, and the
  record follows it**.
-/

import RecordModel.Proofs.DayNumbers

set_option relaxedAutoImplicit false
set_option autoImplicit false

namespace RecordModel

/-! ### The checks of single types -/

namespace Descriptor

/-- A decimal has a positive scale, within a precision that is not too great. -/
theorem ofDecimal_eq_ok_iff {a : FieldAttributes} {d : Descriptor} :
    ofDecimal a = .ok d ↔ ∃ precision scale, a.precision = some precision ∧ a.scale = some scale ∧
      0 < scale ∧ scale ≤ precision ∧ precision ≤ mostPrecision ∧
      d = .logical (.decimal precision scale) := by
  constructor
  · intro h
    unfold ofDecimal at h
    split at h
    · cases h
    · cases h
    · rename_i precision scale hprecision hscale
      split at h
      · cases h
      · rename_i hzero
        split at h
        · cases h
        · rename_i hle
          split at h
          · cases h
          · rename_i hmost
            cases h
            exact ⟨precision, scale, hprecision, hscale, by omega, by omega, by omega, rfl⟩
  · rintro ⟨precision, scale, hprecision, hscale, hpos, hle, hmost, rfl⟩
    rw [ofDecimal, hprecision, hscale]
    dsimp only
    rw [if_neg (by omega), if_neg (by omega), if_neg (by omega)]

/-- Fixed bytes have a positive length. -/
theorem ofFixed_eq_ok_iff {ctx : FieldSite} {d : Descriptor} :
    ofFixed ctx = .ok d ↔ ∃ size, ctx.attributes.size = some size ∧ 0 < size ∧
      d = .fixed ⟨ctx.attributes.fixedName.getD ctx.field, size⟩ := by
  rw [ofFixed]
  cases ctx.attributes.size with
  | none => simp
  | some size =>
      cases size with
      | zero => simp
      | succ size => simp [eq_comm]

/-- An enumeration has symbols, each once, and its default is one of them. -/
theorem ofEnum_eq_ok_iff {ctx : FieldSite} {name : String} {symbols : List String}
    {default : Option String} {d : Descriptor} :
    ofEnum ctx name symbols default = .ok d ↔
      symbols ≠ [] ∧ symbols.Nodup ∧ (∀ s ∈ default, s ∈ symbols) ∧
      d = .enum ⟨if name.isEmpty then ctx.field else name, symbols, default⟩ := by
  have hdefault : default.filter (· ∉ symbols) = none ↔ ∀ s ∈ default, s ∈ symbols := by
    simp [Option.filter_eq_none_iff]
  rw [ofEnum, ← repeated?_eq_none_iff, ← hdefault]
  by_cases hnil : symbols = []
  · simp [hnil]
  · rw [if_neg (by simpa using hnil)]
    cases repeated? symbols with
    | some s => simp
    | none =>
        cases default.filter (· ∉ symbols) with
        | some s => simp
        | none =>
            dsimp only
            rw [Except.ok.injEq, eq_comm]
            exact ⟨fun h => ⟨hnil, rfl, rfl, h⟩, fun h => h.2.2.2⟩

end Descriptor

/-! ### Well-formed types -/

namespace DeclaredType

/-- `Within e t`: the declared type `e` stands somewhere in the declared type `t`. -/
inductive Within (e : DeclaredType) : DeclaredType → Prop
  | refl : Within e e
  | items {t items : DeclaredType} : t.items? = some items → Within e items → Within e t
  | values {values : DeclaredType} : Within e values → Within e (.dict values)
  | member {ts : List DeclaredType} {t : DeclaredType} :
      t ∈ ts → Within e t → Within e (.union ts)
  | inner {inner : DeclaredType} : Within e inner → Within e (.optional inner)

/-- What two members of a union must not share: the name of a named type, and the kind of any
other.  Fixed bytes and an enumeration without a name have that of the field. -/
def identity (ctx : FieldSite) : DeclaredType → String
  | .boolean => "boolean"
  | .int32 => "int32"
  | .int64 => "int64"
  | .float32 => "float32"
  | .float64 => "float64"
  | .bytes => "bytes"
  | .string => "string"
  | .null => "null"
  | .date => "date"
  | .timeMillis => "time-millis"
  | .timeMicros => "time-micros"
  | .timestampMillis => "timestamp-millis"
  | .timestampMicros => "timestamp-micros"
  | .uuid => "uuid"
  | .decimal => "decimal"
  | .fixed => ctx.attributes.fixedName.getD ctx.field
  | .enum name _ _ => if name.isEmpty then ctx.field else name
  | .list _ => "array"
  | .tuple _ => "array"
  | .dict _ => "map"
  | .union _ => "union"
  | .optional _ => "union"
  | .record name => name
  | .self => ctx.record

/-- What is asked of a type by itself: a decimal has both attributes, with digits behind the point
and not too many digits; fixed bytes have a positive length; an enumeration has distinct symbols, its
default among them; a reference names a record; and a union has members that stay distinct when those
of the unions and optional types in it stand side by side. -/
def Sound (ctx : FieldSite) : DeclaredType → Prop
  | .decimal => ∃ precision scale, ctx.attributes.precision = some precision ∧
      ctx.attributes.scale = some scale ∧ 0 < scale ∧ scale ≤ precision ∧
      precision ≤ mostPrecision
  | .fixed => ∃ size, ctx.attributes.size = some size ∧ 0 < size
  | .enum _ symbols default => symbols ≠ [] ∧ symbols.Nodup ∧ ∀ s ∈ default, s ∈ symbols
  | .record name => name ≠ ""
  | .union ts => ts ≠ [] ∧ ((ts.flatMap alternatives).map (identity ctx)).Nodup
  | _ => True

/-- Every type within the declared type is what is asked of it. -/
def WellFormed (ctx : FieldSite) (t : DeclaredType) : Prop := ∀ e, Within e t → e.Sound ctx

end DeclaredType

/-! ### Declared types that settle -/

open Descriptor

variable {ctx : FieldSite}

/-- A type without alternatives has the identity of its declaration. -/
theorem SettlesPlain.identity_eq {s : DeclaredType} {e : Descriptor} (h : SettlesPlain ctx s e) :
    e.identity = s.identity ctx := by
  obtain ⟨hplain, h⟩ := h
  cases s with
  | decimal =>
      obtain ⟨precision, scale, rfl, -⟩ := exists_of_ofDecimal h
      rfl
  | fixed =>
      obtain ⟨size, -, -, rfl⟩ := ofFixed_eq_ok_iff.mp h
      rfl
  | enum name symbols default =>
      obtain ⟨-, -, -, rfl⟩ := ofEnum_eq_ok_iff.mp h
      rfl
  | list items | tuple items | dict values =>
      rw [ofDeclared] at h
      obtain ⟨_, -, rfl⟩ := exists_of_map_eq_ok h
      rfl
  | record name =>
      rw [ofDeclared] at h
      split at h
      · cases h
      · cases h
        rfl
  | union ts => cases hplain
  | optional inner => cases hplain
  | _ =>
      cases h
      rfl

/-- What types contribute to a union has the identities of their alternatives. -/
theorem map_identity_spliced {ts : List DeclaredType} {ds : List Descriptor}
    (h : List.Forall₂ (fun t d => ofDeclared ctx t = .ok d) ts ds) :
    (ds.flatMap spliced).map Descriptor.identity =
      (ts.flatMap DeclaredType.alternatives).map (DeclaredType.identity ctx) := by
  have halternatives : List.Forall₂ (SettlesPlain ctx) (ts.flatMap DeclaredType.alternatives)
      (ds.flatMap spliced) := by
    refine List.rel_flatMap h fun t d ht => ?_
    rw [(ofDeclared_canonical ht).spliced_eq]
    exact forall₂_alternatives ht
  generalize ts.flatMap DeclaredType.alternatives = ss at halternatives
  generalize ds.flatMap spliced = es at halternatives
  induction halternatives with
  | nil => rfl
  | cons hse _ ih => rw [List.map_cons, List.map_cons, hse.identity_eq, ih]

namespace DeclaredType

/-- What settles is what is asked of it. -/
theorem sound_of_ofDeclared {t : DeclaredType} {d : Descriptor} (h : ofDeclared ctx t = .ok d) :
    t.Sound ctx := by
  cases t with
  | decimal =>
      obtain ⟨precision, scale, hprecision, hscale, hpos, hle, hmost, -⟩ :=
        ofDecimal_eq_ok_iff.mp h
      exact ⟨precision, scale, hprecision, hscale, hpos, hle, hmost⟩
  | fixed =>
      obtain ⟨size, hsize, hpos, -⟩ := ofFixed_eq_ok_iff.mp h
      exact ⟨size, hsize, hpos⟩
  | enum name symbols default =>
      obtain ⟨hne, hnodup, hdefault, -⟩ := ofEnum_eq_ok_iff.mp h
      exact ⟨hne, hnodup, hdefault⟩
  | union ts =>
      obtain ⟨ds, hne, hds, hdistinct, -⟩ := exists_of_ofDeclared_union h
      exact ⟨hne, map_identity_spliced hds ▸ hdistinct⟩
  | record name =>
      rw [ofDeclared] at h
      split at h
      · cases h
      · rename_i hname
        exact fun he => hname (String.isEmpty_iff.mpr he)
  | _ => trivial

/-- What stands within a type that settles does settle. -/
theorem exists_ofDeclared_of_within {e t : DeclaredType} (he : Within e t) {d : Descriptor}
    (h : ofDeclared ctx t = .ok d) : ∃ d', ofDeclared ctx e = .ok d' := by
  induction he generalizing d with
  | refl => exact ⟨d, h⟩
  | @items t items hi _ ih =>
      have hitems : (ofDeclared ctx items).map .array = .ok d := by
        cases t <;> cases hi <;> exact h
      obtain ⟨i, hi, -⟩ := exists_of_map_eq_ok hitems
      exact ih hi
  | values _ ih =>
      rw [ofDeclared] at h
      obtain ⟨v, hv, -⟩ := exists_of_map_eq_ok h
      exact ih hv
  | member ht _ ih =>
      obtain ⟨ds, -, hds, -, -⟩ := exists_of_ofDeclared_union h
      obtain ⟨d', -, hd'⟩ := exists_right_of_forall₂ hds ht
      exact ih hd'
  | inner _ ih =>
      rw [ofDeclared] at h
      obtain ⟨i, hi, -⟩ := exists_of_map_eq_ok h
      exact ih hi

theorem WellFormed.sound {t : DeclaredType} (h : t.WellFormed ctx) : t.Sound ctx := h t .refl

theorem exists_forall₂ {α β : Type} {R : α → β → Prop} {as : List α} (h : ∀ a ∈ as, ∃ b, R a b) :
    ∃ bs, List.Forall₂ R as bs := by
  induction as with
  | nil => exact ⟨[], .nil⟩
  | cons a as ih =>
      obtain ⟨⟨b, hb⟩, hrest⟩ := List.forall_mem_cons.mp h
      obtain ⟨bs, hbs⟩ := ih hrest
      exact ⟨b :: bs, .cons hb hbs⟩

/-- A well-formed type settles. -/
theorem WellFormed.exists_ofDeclared {t : DeclaredType} (h : t.WellFormed ctx) :
    ∃ d, ofDeclared ctx t = .ok d := by
  induction hn : sizeOf t using Nat.strongRecOn generalizing t with
  | _ n ih =>
      subst hn
      cases t with
      | decimal =>
          obtain ⟨precision, scale, hprecision, hscale, hpos, hle, hmost⟩ := h.sound
          exact ⟨_, ofDecimal_eq_ok_iff.mpr
            ⟨precision, scale, hprecision, hscale, hpos, hle, hmost, rfl⟩⟩
      | fixed =>
          obtain ⟨size, hsize, hpos⟩ := h.sound
          exact ⟨_, ofFixed_eq_ok_iff.mpr ⟨size, hsize, hpos, rfl⟩⟩
      | enum name symbols default =>
          obtain ⟨hne, hnodup, hdefault⟩ := h.sound
          exact ⟨_, ofEnum_eq_ok_iff.mpr ⟨hne, hnodup, hdefault, rfl⟩⟩
      | list items | tuple items =>
          obtain ⟨d, hd⟩ := ih _ (by simp) (fun e he => h e (.items rfl he)) rfl
          exact ⟨.array d, by rw [ofDeclared, hd]; rfl⟩
      | dict values =>
          obtain ⟨d, hd⟩ := ih _ (by simp) (fun e he => h e (.values he)) rfl
          exact ⟨.map d, by rw [ofDeclared, hd]; rfl⟩
      | union ts =>
          have hmembers : ∀ t ∈ ts, ∃ d, ofDeclared ctx t = .ok d := by
            intro t ht
            have hlt := List.sizeOf_lt_of_mem ht
            refine ih _ ?_ (fun e he => h e (.member ht he)) rfl
            simp only [DeclaredType.union.sizeOf_spec]
            omega
          obtain ⟨ds, hds⟩ := exists_forall₂ hmembers
          obtain ⟨hne, hdistinct⟩ := h.sound
          rw [← map_identity_spliced hds] at hdistinct
          exact ⟨_, ofDeclared_union_of_forall₂ hne hds hdistinct⟩
      | optional inner =>
          obtain ⟨d, hd⟩ := ih _ (by simp) (fun e he => h e (.inner he)) rfl
          exact ⟨d.asOptional, by rw [ofDeclared, hd]; rfl⟩
      | record name =>
          refine ⟨.reference name, ?_⟩
          rw [ofDeclared, if_neg]
          exact fun he => h.sound (String.isEmpty_iff.mp he)
      | _ => exact ⟨_, rfl⟩

/-- **A declared type settles exactly when it is well formed.** -/
theorem exists_ofDeclared_iff {t : DeclaredType} :
    (∃ d, ofDeclared ctx t = .ok d) ↔ t.WellFormed ctx := by
  constructor
  · rintro ⟨d, hd⟩ e he
    obtain ⟨d', hd'⟩ := exists_ofDeclared_of_within he hd
    exact sound_of_ofDeclared hd'
  · exact WellFormed.exists_ofDeclared

end DeclaredType

/-! ### Defaults -/

theorem Descriptor.enum?_eq_some_iff {d : Descriptor} {e : Enumeration} :
    d.enum? = some e ↔ d = .enum e ∨ d = .optional (.enum e) := by
  cases d with
  | enum type => simp [enum?]
  | optional inner => cases inner <;> simp [enum?]
  | _ => simp [enum?]

theorem Value.symbol?_eq_some_iff {v : Value} {s : String} :
    v.symbol? = some s ↔ v = .string s ∨ v = .enum s := by
  cases v <;> simp [symbol?]

/-- A default is settled when it names no symbol, or one of the enumeration. -/
theorem Descriptor.exists_settledDefault_iff {d : Descriptor} {v : Value} :
    (∃ w, d.settledDefault v = .ok w) ↔
      ∀ e s, d.enum? = some e → v.symbol? = some s → s ∈ e.symbols := by
  rw [settledDefault]
  split
  · rename_i e s he hs
    rw [he, hs]
    split <;> simp_all
  · rename_i hother
    refine iff_of_true ⟨v, rfl⟩ fun e s he hs => absurd hs (hother e s he)

theorem Descriptor.settledDefault_symbol {d : Descriptor} {v w : Value} {e : Enumeration}
    {s : String} (he : d.enum? = some e) (hs : v.symbol? = some s) (h : d.settledDefault v = .ok w) :
    w = .enum s := by
  rw [settledDefault, he, hs] at h
  dsimp only at h
  split at h
  · cases h
    rfl
  · cases h

/-- Any other default is left alone. -/
theorem Descriptor.settledDefault_other {d : Descriptor} {v w : Value}
    (hother : ∀ e s, d.enum? = some e → v ≠ .string s) (h : d.settledDefault v = .ok w) :
    w = v := by
  rw [settledDefault] at h
  split at h
  · rename_i e s he hs
    split at h
    · cases h
      rcases Value.symbol?_eq_some_iff.mp hs with rfl | rfl
      · exact absurd rfl (hother e s he)
      · rfl
    · cases h
  · cases h
    rfl

/-! ### Declared fields that settle -/

namespace DeclaredField

/-- The place of the field, with its attributes. -/
def site (record : String) (d : DeclaredField) : FieldSite := ⟨record, d.name, d.attributes⟩

/-- The value that is declared as the default, made if need be. -/
def given (d : DeclaredField) : Option Value := d.default.map DeclaredDefault.toValue

/-- What is asked of a declared field: a well-formed type, and where this settles as an enumeration
or optionally as one, a default that is one of its symbols if it is a text or a symbol. -/
structure WellFormed (record : String) (d : DeclaredField) : Prop where
  type : d.type.WellFormed (d.site record)
  default : ∀ type e s, ofDeclared (d.site record) d.type = .ok type →
    type = .enum e ∨ type = .optional (.enum e) →
    d.given = some (.string s) ∨ d.given = some (.enum s) → s ∈ e.symbols

/-- How a field follows its declaration. -/
structure Becomes (record : String) (order : Nat) (d : DeclaredField) (f : Field) : Prop where
  name : f.name = d.name
  order : f.order = order
  doc : f.doc = d.attributes.doc
  aliases : f.aliases = d.attributes.aliases
  /-- The type is the settled one, made optional by a null default alone, if it has no null yet. -/
  type : ∃ type, ofDeclared (d.site record) d.type = .ok type ∧
    (d.given = some .null → type.hasAlternatives = false → type.isNull = false →
      f.type = .optional type) ∧
    (d.given ≠ some .null ∨ type.hasAlternatives = true ∨ type.isNull = true → f.type = type)
  /-- A text that is the default of an enumeration becomes a symbol. -/
  symbol : ∀ e s, f.type = .enum e ∨ f.type = .optional (.enum e) → d.given = some (.string s) →
    f.default = some (.enum s)
  /-- Any other default is the one that is declared. -/
  default : (∀ e s, f.type = .enum e ∨ f.type = .optional (.enum e) →
    d.given ≠ some (.string s)) → f.default = d.given

end DeclaredField

/-- A field is settled by its type and then by its default. -/
theorem Field.ofDeclaration_eq_ok_iff {record : String} {order : Nat} {d : DeclaredField}
    {f : Field} :
    Field.ofDeclaration record order d = .ok f ↔
      ∃ type default, ofDeclared (d.site record) d.type = .ok type ∧
        d.given.mapM (type.withDefault d.given).settledDefault = .ok default ∧
        f = ⟨d.name, type.withDefault d.given, default, order, d.attributes.doc,
          d.attributes.aliases⟩ := by
  have hsplit : d.typeAndDefault record = do
      let type ← ofDeclared (d.site record) d.type
      let default ← d.given.mapM (type.withDefault d.given).settledDefault
      return (type.withDefault d.given, default) := by
    rw [DeclaredField.typeAndDefault, DeclaredField.given]
    cases d.default with
    | none => rfl
    | some default =>
        refine bind_congr fun type => ?_
        dsimp only [Option.map_some]
        rw [Option.mapM_some]
        cases (type.withDefault (some default.toValue)).settledDefault default.toValue <;> rfl
  rw [Field.ofDeclaration, hsplit]
  cases ofDeclared (d.site record) d.type with
  | error fault => simp [bind, Except.bind]
  | ok type =>
      cases hdefault : d.given.mapM (type.withDefault d.given).settledDefault with
      | error fault => simp [bind, Except.bind, hdefault]
      | ok default => simp [bind, Except.bind, hdefault, pure, Except.pure, eq_comm]

theorem Descriptor.withDefault_of_ne_null {d : Descriptor} {default : Option Value}
    (h : default ≠ some .null) : d.withDefault default = d := by
  unfold withDefault
  split
  · exact absurd rfl h
  · rfl

/-- The checks of a default are those of the type without it: a null default names no symbol. -/
theorem Descriptor.exists_settledGiven_iff {d : Descriptor} {given : Option Value} :
    (∃ default, given.mapM (d.withDefault given).settledDefault = .ok default) ↔
      ∀ e s, d.enum? = some e → given = some (.string s) ∨ given = some (.enum s) →
        s ∈ e.symbols := by
  cases given with
  | none => exact iff_of_true ⟨none, rfl⟩ fun e s _ h => by rcases h with h | h <;> cases h
  | some v =>
      have hmap : (∃ default, (some v).mapM (d.withDefault (some v)).settledDefault = .ok default) ↔
          ∃ w, (d.withDefault (some v)).settledDefault v = .ok w := by
        rw [Option.mapM_some]
        exact exists_map_eq_ok_iff
      rw [hmap, exists_settledDefault_iff]
      by_cases hnull : v = .null
      · subst hnull
        refine iff_of_true (fun e s _ hs => by cases hs) fun e s _ h => ?_
        rcases h with h | h <;> cases h
      · rw [withDefault_of_ne_null (by simpa using hnull)]
        simp only [Value.symbol?_eq_some_iff, Option.some.injEq]

/-- **A declared field settles exactly when it is well formed.** -/
theorem DeclaredField.exists_ofDeclaration_iff {record : String} {order : Nat} {d : DeclaredField} :
    (∃ f, Field.ofDeclaration record order d = .ok f) ↔ d.WellFormed record := by
  simp only [Field.ofDeclaration_eq_ok_iff]
  constructor
  · rintro ⟨_, type, default, htype, hdefault, -⟩
    refine ⟨DeclaredType.exists_ofDeclared_iff.mp ⟨type, htype⟩, fun type' e s htype' he hs => ?_⟩
    cases htype.symm.trans htype'
    exact exists_settledGiven_iff.mp ⟨default, hdefault⟩ e s (enum?_eq_some_iff.mpr he) hs
  · intro h
    obtain ⟨type, htype⟩ := h.type.exists_ofDeclared
    obtain ⟨default, hdefault⟩ := exists_settledGiven_iff.mpr fun e s he hs =>
      h.default type e s htype (enum?_eq_some_iff.mp he) hs
    exact ⟨_, type, default, htype, hdefault, rfl⟩

/-- A settled field follows its declaration. -/
theorem DeclaredField.becomes_of_ofDeclaration {record : String} {order : Nat} {d : DeclaredField}
    {f : Field} (h : Field.ofDeclaration record order d = .ok f) : d.Becomes record order f := by
  obtain ⟨type, default, htype, hdefault, rfl⟩ := Field.ofDeclaration_eq_ok_iff.mp h
  refine ⟨rfl, rfl, rfl, rfl, ⟨type, htype, ?_, ?_⟩, ?_, ?_⟩
  · intro hnull halternatives hisNull
    change type.withDefault d.given = _
    rw [hnull, withDefault, halternatives, hisNull]
    rfl
  · intro hother
    change type.withDefault d.given = _
    unfold withDefault
    split
    · rename_i hnull
      have hnull := hother.resolve_left (not_not_intro hnull)
      rw [if_pos (by simpa using hnull)]
    · rfl
  · intro e s he hs
    rw [hs, Option.mapM_some] at hdefault
    obtain ⟨w, hw, rfl⟩ := exists_of_map_eq_ok hdefault
    exact congrArg some (settledDefault_symbol (enum?_eq_some_iff.mpr (hs ▸ he)) rfl hw)
  · intro hother
    change default = d.given
    cases hgiven : d.given with
    | none =>
        rw [hgiven] at hdefault
        cases hdefault
        rfl
    | some v =>
        rw [hgiven, Option.mapM_some] at hdefault
        obtain ⟨w, hw, rfl⟩ := exists_of_map_eq_ok hdefault
        refine congrArg some (settledDefault_other (fun e s he hv => ?_) hw)
        subst hv
        exact hother e s (enum?_eq_some_iff.mp (hgiven ▸ he)) hgiven

/-! ### Declared records that settle -/

/-- What is asked of a declared record: a name, distinct names of its fields, and well-formed
fields. -/
structure DeclaredRecord.WellFormed (d : DeclaredRecord) : Prop where
  named : d.name ≠ ""
  distinct : (d.fields.map (·.name)).Nodup
  fields : ∀ f ∈ d.fields, f.WellFormed d.name

/-- How a record follows its declaration: the fields come in the order of declaration, and each knows
its place in it. -/
structure DeclaredRecord.Becomes (d : DeclaredRecord) (r : Record) : Prop where
  name : r.name = d.name
  space : r.space = d.space
  doc : r.doc = d.doc
  aliases : r.aliases = d.aliases
  length : r.fields.length = d.fields.length
  field : ∀ (order : Nat) (declared : DeclaredField) (f : Field), d.fields[order]? = some declared →
    r.fields[order]? = some f → declared.Becomes d.name order f

/-- Declared fields settle when their names are new and distinct, and each of them settles. -/
theorem Field.exists_ofDeclarations_iff {record : String} {seen : List String}
    {ds : List DeclaredField} :
    (∃ fields, Field.ofDeclarations record seen ds = .ok fields) ↔
      (ds.map (·.name)).Nodup ∧ (∀ d ∈ ds, d.name ∉ seen) ∧ ∀ d ∈ ds, d.WellFormed record := by
  induction ds generalizing seen with
  | nil => simp [Field.ofDeclarations]
  | cons d rest ih =>
      have hcons : (∃ fields, Field.ofDeclarations record seen (d :: rest) = .ok fields) ↔
          d.name ∉ seen ∧ d.WellFormed record ∧
            ∃ fields, Field.ofDeclarations record (d.name :: seen) rest = .ok fields := by
        rw [Field.ofDeclarations]
        split
        · rename_i hseen
          exact iff_of_false (by rintro ⟨_, h⟩; cases h) fun h => h.1 hseen
        · rename_i hseen
          have hfield : d.WellFormed record ↔
              ∃ f, Field.ofDeclaration record seen.length d = .ok f :=
            DeclaredField.exists_ofDeclaration_iff.symm
          rw [hfield]
          constructor
          · rintro ⟨_, h⟩
            obtain ⟨f, hf, h⟩ := exists_of_bind_eq_ok h
            obtain ⟨others, hothers, -⟩ := exists_of_bind_eq_ok h
            exact ⟨hseen, ⟨f, hf⟩, others, hothers⟩
          · rintro ⟨-, ⟨f, hf⟩, others, hothers⟩
            refine ⟨f :: others, ?_⟩
            simp only [hf, hothers, bind, Except.bind, pure, Except.pure]
      rw [hcons, ih, List.forall_mem_cons, List.forall_mem_cons]
      simp only [List.map_cons, List.nodup_cons, List.mem_cons, not_or, List.mem_map, not_exists,
        not_and]
      constructor
      · rintro ⟨hseen, hd, hnodup, hnew, hrest⟩
        exact ⟨⟨fun x hx => (hnew x hx).1, hnodup⟩, ⟨hseen, fun x hx => (hnew x hx).2⟩, hd, hrest⟩
      · rintro ⟨⟨hdistinct, hnodup⟩, ⟨hseen, hnew⟩, hd, hrest⟩
        exact ⟨hseen, hd, hnodup, fun x hx => ⟨hdistinct x hx, hnew x hx⟩, hrest⟩

/-- Settled fields stand in the order of declaration and know their places. -/
theorem Field.places_of_ofDeclarations {record : String} {seen : List String}
    {ds : List DeclaredField} {fields : List Field}
    (h : Field.ofDeclarations record seen ds = .ok fields) :
    fields.length = ds.length ∧ ∀ i d f, ds[i]? = some d → fields[i]? = some f →
      Field.ofDeclaration record (seen.length + i) d = .ok f := by
  induction ds generalizing seen fields with
  | nil =>
      rw [Field.ofDeclarations] at h
      cases h
      exact ⟨rfl, fun i d f hd _ => by cases hd⟩
  | cons d rest ih =>
      rw [Field.ofDeclarations] at h
      split at h
      · cases h
      · obtain ⟨f, hf, h⟩ := exists_of_bind_eq_ok h
        obtain ⟨others, hothers, h⟩ := exists_of_bind_eq_ok h
        cases h
        obtain ⟨hlength, hplaces⟩ := ih hothers
        refine ⟨congrArg (· + 1) hlength, fun i d' f' hd' hf' => ?_⟩
        cases i with
        | zero =>
            cases hd'
            cases hf'
            exact hf
        | succ i =>
            have hplace := hplaces i d' f' hd' hf'
            rwa [List.length_cons, Nat.add_right_comm, Nat.add_assoc] at hplace

/-- **A declaration settles exactly when it is well formed, and the record follows it.** -/
theorem Record.settles_iff_wellFormed :
    (∀ d : DeclaredRecord, (∃ r, Record.ofDeclaration d = .ok r) ↔ d.WellFormed) ∧
      ∀ (d : DeclaredRecord) (r : Record), Record.ofDeclaration d = .ok r → d.Becomes r := by
  refine ⟨fun d => ?_, fun d r h => ?_⟩
  · rw [Record.ofDeclaration]
    split
    · rename_i hname
      refine iff_of_false (by rintro ⟨_, h⟩; cases h) fun h => ?_
      exact h.named (String.isEmpty_iff.mp hname)
    · rename_i hname
      refine exists_map_eq_ok_iff.trans (Field.exists_ofDeclarations_iff.trans ⟨?_, ?_⟩)
      · rintro ⟨hdistinct, -, hwell⟩
        exact ⟨fun he => hname (String.isEmpty_iff.mpr he), hdistinct, hwell⟩
      · rintro ⟨-, hdistinct, hwell⟩
        exact ⟨hdistinct, fun _ _ => List.not_mem_nil, hwell⟩
  · unfold Record.ofDeclaration at h
    split at h
    · cases h
    · obtain ⟨fields, hfields, rfl⟩ := exists_of_map_eq_ok h
      obtain ⟨hlength, hplaces⟩ := Field.places_of_ofDeclarations hfields
      refine ⟨rfl, rfl, rfl, rfl, hlength, fun order declared f hdeclared hf => ?_⟩
      have hplace := hplaces order declared f hdeclared hf
      rw [List.length_nil, Nat.zero_add] at hplace
      exact DeclaredField.becomes_of_ofDeclaration hplace

/-! ### Parcels -/

/-- A parcel: decimals in an optional list, an enumeration whose default is made as a text, and a
union with a union and an optional type in it, which is absent by default. -/
def parcel : DeclaredRecord :=
  ⟨"Parcel", none, none, [],
    [⟨"prices", .optional (.list .decimal), none, ⟨some 9, some 2, none, none, none, []⟩⟩,
      ⟨"size", .optional (.enum "Size" ["S", "L"] (some "S")), some (.computed fun _ => .string "L"),
        ⟨none, none, none, none, none, []⟩⟩,
      ⟨"content", .union [.string, .union [.int32, .optional .fixed]], some .absent,
        ⟨none, none, some 4, some "Code", none, []⟩⟩]⟩

/-- The record of parcels. -/
def parcelRecord : Record :=
  ⟨"Parcel", none, none, [],
    [⟨"prices", .optional (.array (.logical (.decimal 9 2))), none, 0, none, []⟩,
      ⟨"size", .optional (.enum ⟨"Size", ["S", "L"], some "S"⟩), some (.enum "L"), 1, none, []⟩,
      ⟨"content", .union [.primitive .string, .primitive .int32, .null, .fixed ⟨"Code", 4⟩],
        some .null, 2, none, []⟩]⟩

theorem ofDeclaration_parcel : Record.ofDeclaration parcel = .ok parcelRecord := by
  with_unfolding_all rfl

/-- The declaration of parcels is well formed, and their record follows it. -/
theorem parcel_settles :
    parcel.WellFormed ∧ (∃ r, Record.ofDeclaration parcel = .ok r) ∧
      Record.ofDeclaration parcel = .ok parcelRecord ∧ parcel.Becomes parcelRecord := by
  have hwell := (Record.settles_iff_wellFormed.1 parcel).mp ⟨_, ofDeclaration_parcel⟩
  exact ⟨hwell, (Record.settles_iff_wellFormed.1 parcel).mpr hwell, ofDeclaration_parcel,
    Record.settles_iff_wellFormed.2 _ _ ofDeclaration_parcel⟩

end RecordModel
