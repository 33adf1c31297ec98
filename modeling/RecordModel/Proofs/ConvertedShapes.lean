/-
**Shapes of converted values.**

What is written for a type is converted to a value of the shape of the settled type.  The conversion
leaves some checks to others: whether a number of 32 bits is finite, the scale and the digits of a
decimal, the length of fixed bytes, and whether a symbol is one of its enumeration.  A value of the
right shape passes every other check.

A declaration need not settle, but it has a shape all the same, since what keeps it from settling is
nothing that shapes look at.

Main definitions:

* `Descriptor.acceptsShape` — the values of a type, without those checks;
* `DeclaredType.outline` — the type that a declaration stands for, up to its shape.

Main results:

* `Descriptor.acceptsShape_of_accepts` — a value of a type has its shape;
* `Descriptor.acceptsShape_eq_outline` — a settled type has the shape of its declaration;
* `takesNull_eq_accepts` — null is written for the types that take null;
* `Conversion.accepts_induction` — induction over the conversions that succeed;
* `Conversion.outline_of_convert`, `Conversion.acceptsShape_of_convert` — **a converted value has
  the shape of the declaration, and of the settled type**.
-/

import RecordModel.Proofs.DeclaredMatching

set_option relaxedAutoImplicit false
set_option autoImplicit false

namespace RecordModel

/-! ### Shapes -/

/-- The values of the shape of a primitive type: numbers of 32 bits need not be finite. -/
def Primitive.acceptsShape : Primitive → Value → Bool
  | .float32, .float32 _ => true
  | kind, v => kind.accepts v

/-- The values of the shape of a logical type: decimals may have any scale and digits. -/
def Logical.acceptsShape : Logical → Value → Bool
  | .decimal _ _, .decimal _ => true
  | kind, v => kind.accepts v

namespace Descriptor

mutual

/-- The values of the shape of a type: besides, fixed bytes may have any length, and an enumeration
any symbol. -/
def acceptsShape : Descriptor → Value → Bool
  | .primitive kind, v => kind.acceptsShape v
  | .logical kind, v => kind.acceptsShape v
  | .fixed _, .fixed _ => true
  | .enum _, .enum _ => true
  | .array items, .array vs => vs.all fun v => acceptsShape items v
  | .map values, .map entries => entries.all fun e => acceptsShape values e.2
  | .union members, v => anyAcceptsShape members v
  | .optional inner, v => v.isNull || acceptsShape inner v
  | .reference record, .record i => i.record == record
  | _, _ => false

/-- The values of the shape of one of some types. -/
def anyAcceptsShape : List Descriptor → Value → Bool
  | [], _ => false
  | d :: rest, v => acceptsShape d v || anyAcceptsShape rest v

end

theorem acceptsShape_union (members : List Descriptor) (v : Value) :
    acceptsShape (.union members) v = members.any fun d => acceptsShape d v := by
  have h : ∀ ds : List Descriptor, anyAcceptsShape ds v = ds.any fun d => acceptsShape d v := by
    intro ds
    induction ds with
    | nil => simp [anyAcceptsShape]
    | cons d rest ih => simp [anyAcceptsShape, ih]
  rw [acceptsShape, h]

theorem acceptsShape_array (items : Descriptor) (vs : List Value) :
    acceptsShape (.array items) (.array vs) = vs.all fun v => acceptsShape items v := by
  rw [acceptsShape]

theorem acceptsShape_map (values : Descriptor) (entries : List (String × Value)) :
    acceptsShape (.map values) (.map entries) = entries.all fun e => acceptsShape values e.2 := by
  rw [acceptsShape]

theorem acceptsShape_null (v : Value) : acceptsShape null v = v.isNull := by
  cases v <;> simp [acceptsShape, Primitive.acceptsShape, Primitive.accepts, Value.isNull]

theorem byAlternatives_acceptsShape (v : Value) :
    ByAlternatives fun d => d.acceptsShape v where
  union members := acceptsShape_union members v
  optional inner := by rw [acceptsShape_null, acceptsShape]

/-- **A value of a type has its shape.** -/
theorem acceptsShape_of_accepts {d : Descriptor} {v : Value} (h : d.accepts v = true) :
    d.acceptsShape v = true := by
  induction d using induction_alternatives generalizing v with
  | primitive kind =>
      rw [accepts] at h
      rw [acceptsShape, Primitive.acceptsShape.eq_def]
      split
      · rfl
      · exact h
  | logical kind =>
      rw [accepts] at h
      rw [acceptsShape, Logical.acceptsShape.eq_def]
      split
      · rfl
      · exact h
  | fixed type => cases v <;> simp_all [accepts, acceptsShape]
  | «enum» type => cases v <;> simp_all [accepts, acceptsShape]
  | array items ih =>
      obtain ⟨vs, rfl, hvs⟩ := accepts_array_iff.mp h
      rw [acceptsShape_array, List.all_eq_true]
      exact fun w hw => ih (hvs w hw)
  | map values ih =>
      obtain ⟨entries, rfl, hentries⟩ := accepts_map_iff.mp h
      rw [acceptsShape_map, List.all_eq_true]
      exact fun e he => ih (hentries e he)
  | choice d hd ih =>
      rw [← (byAlternatives_acceptsShape v).any_alternatives, List.any_eq_true]
      obtain ⟨m, hm, hv⟩ := (accepts_iff_alternatives d v).mp h
      exact ⟨m, hm, ih m hm hv⟩
  | reference name =>
      obtain ⟨i, rfl, hi⟩ := (accepts_reference name v).mp h
      simpa [acceptsShape] using hi

end Descriptor

namespace DeclaredType

/-! ### Outlines -/

mutual

/-- The type that a declared type stands for in the record `owner`, up to its shape: with any
attributes, and with unions and optional types as they are nested. -/
def outline (owner : String) : DeclaredType → Descriptor
  | .boolean => .primitive .boolean
  | .int32 => .primitive .int32
  | .int64 => .primitive .int64
  | .float32 => .primitive .float32
  | .float64 => .primitive .float64
  | .bytes => .primitive .bytes
  | .string => .primitive .string
  | .null => .primitive .null
  | .date => .logical .date
  | .timeMillis => .logical .timeMillis
  | .timeMicros => .logical .timeMicros
  | .timestampMillis => .logical .timestampMillis
  | .timestampMicros => .logical .timestampMicros
  | .uuid => .logical .uuid
  | .decimal => .logical (.decimal 0 0)
  | .fixed => .fixed ⟨"", 0⟩
  | .enum name symbols default => .enum ⟨name, symbols, default⟩
  | .list items => .array (outline owner items)
  | .tuple items => .array (outline owner items)
  | .dict values => .map (outline owner values)
  | .union members => .union (outlines owner members)
  | .optional inner => .optional (outline owner inner)
  | .record name => .reference name
  | .self => .reference owner

/-- The outlines of some types. -/
def outlines (owner : String) : List DeclaredType → List Descriptor
  | [] => []
  | t :: rest => outline owner t :: outlines owner rest

end

theorem outline_union (owner : String) (ts : List DeclaredType) :
    outline owner (.union ts) = .union (ts.map (outline owner)) := by
  rw [outline]
  refine congrArg Descriptor.union ?_
  induction ts with
  | nil => rw [outlines, List.map_nil]
  | cons t rest ih => rw [outlines, List.map_cons, ih]

theorem outline_of_items? {t items : DeclaredType} (h : t.items? = some items) (owner : String) :
    t.outline owner = .array (items.outline owner) := by
  cases t <;> cases h <;> rw [outline]

theorem outline_of_record? {t : DeclaredType} {owner name : String}
    (h : t.record? owner = some name) : t.outline owner = .reference name := by
  cases t <;> cases h <;> rw [outline]

end DeclaredType

/-- **A settled type has the shape of its declaration.** -/
theorem Descriptor.acceptsShape_eq_outline {ctx : FieldSite} {t : DeclaredType} {d : Descriptor}
    (h : ofDeclared ctx t = .ok d) (v : Value) :
    d.acceptsShape v = (t.outline ctx.record).acceptsShape v := by
  refine ofDeclared_induction
    (P := fun t d => ∀ v, d.acceptsShape v = (t.outline ctx.record).acceptsShape v)
    ?scalar ?items ?dict ?union ?optional ?record h v
  case scalar =>
    intro t d ht hd v
    cases t with
    | decimal =>
        obtain ⟨_, _, rfl, -⟩ := exists_of_ofDecimal hd
        cases v <;> rfl
    | fixed =>
        obtain ⟨_, rfl⟩ := exists_of_ofFixed hd
        cases v <;> rfl
    | «enum» name symbols default =>
        obtain ⟨_, rfl⟩ := exists_of_ofEnum hd
        cases v <;> rfl
    | list | tuple | dict | union | optional | record | self => cases ht
    | _ =>
        cases hd
        rfl
  case items =>
    intro t items d hi _ ih v
    rw [DeclaredType.outline_of_items? hi]
    cases v with
    | array vs => simp only [acceptsShape_array, ih]
    | _ => rfl
  case dict =>
    intro values d _ ih v
    rw [DeclaredType.outline]
    cases v with
    | map entries => simp only [acceptsShape_map, ih]
    | _ => rfl
  case union =>
    rintro ts ds - hds - v
    rw [(byAlternatives_acceptsShape v).union_spliced, DeclaredType.outline_union,
      acceptsShape_union, List.any_map]
    induction hds with
    | nil => rfl
    | cons h _ ih => rw [List.any_cons, List.any_cons, h.2, ih, Function.comp_apply]
  case optional =>
    intro inner d _ ih v
    rw [(byAlternatives_acceptsShape v).asOptional, acceptsShape_null, ih, DeclaredType.outline,
      acceptsShape]
  case record =>
    intro t name hname v
    rw [DeclaredType.outline_of_record? hname]

/-! ### Null -/

/-- **Null is written for a type exactly when the settled type takes null.** -/
theorem takesNull_eq_accepts {ctx : FieldSite} {t : DeclaredType} {d : Descriptor}
    (h : Descriptor.ofDeclared ctx t = .ok d) : t.takesNull = d.accepts .null := by
  refine Descriptor.ofDeclared_induction (P := fun t d => t.takesNull = d.accepts .null)
    ?scalar ?items ?dict ?union ?optional ?record h
  case scalar =>
    intro t d ht hd
    cases t with
    | decimal =>
        obtain ⟨_, _, rfl, -⟩ := Descriptor.exists_of_ofDecimal hd
        rfl
    | fixed =>
        obtain ⟨_, rfl⟩ := Descriptor.exists_of_ofFixed hd
        rfl
    | «enum» name symbols default =>
        obtain ⟨_, rfl⟩ := Descriptor.exists_of_ofEnum hd
        rfl
    | list | tuple | dict | union | optional | record | self => cases ht
    | _ =>
        cases hd
        rfl
  case items =>
    intro t items d hi _ _
    cases t <;> cases hi <;> rfl
  case dict => exact fun _ _ _ _ => rfl
  case union =>
    rintro ts ds - hds -
    rw [DeclaredType.takesNull_union, (Descriptor.byAlternatives_accepts .null).union_spliced]
    induction hds with
    | nil => rfl
    | cons h _ ih => rw [List.any_cons, List.any_cons, h.2, ih]
  case optional =>
    intro inner d _ _
    rw [(Descriptor.byAlternatives_accepts .null).asOptional, Descriptor.accepts_null]
    rfl
  case record =>
    intro t name hname
    cases t <;> cases hname <;> rfl

namespace Conversion

open Descriptor

/-! ### Types without parts -/

/-- What a type without parts makes has its shape.  Numbers of 64 bits come out finite, because a
JSON number is. -/
theorem outline_of_scalar {t : DeclaredType} {raw : Json} {v : Value} (hraw : raw.InRange)
    (h : scalar t raw = .ok (some v)) (owner : String) :
    (t.outline owner).acceptsShape v = true := by
  cases t with
  | float64 =>
      obtain ⟨x, hx, rfl⟩ := Option.map_eq_some_iff.mp (Except.ok.inj h)
      simpa [DeclaredType.outline, acceptsShape, Primitive.acceptsShape, Primitive.accepts] using
        Json.toBinary64?_isFinite hraw hx
  | date =>
      obtain ⟨date, -, h⟩ := exists_of_bind_eq_ok h
      obtain ⟨_, -, rfl⟩ := Option.map_eq_some_iff.mp (Except.ok.inj h)
      rfl
  | string | «enum» =>
      cases raw <;> cases h
      rfl
  | null | list | tuple | dict | union | optional | record | self => cases h
  | _ =>
      obtain ⟨_, -, rfl⟩ := Option.map_eq_some_iff.mp (Except.ok.inj h)
      rfl

/-! ### Unions -/

variable {records : List DeclaredRecord} {owner : String}

/-- What some members of a union make, one of them makes. -/
theorem exists_of_convertUnion {raw : Json} {ts : List DeclaredType} {place : Place} {v : Value}
    (h : convertUnion records owner raw ts place = .ok v) :
    ∃ t ∈ ts, convert records owner raw t place = .ok v := by
  induction ts with
  | nil =>
      rw [convertUnion] at h
      cases h
  | cons t rest ih =>
      rw [convertUnion] at h
      have hrest : convertUnion records owner raw rest place = .ok v →
          ∃ t' ∈ t :: rest, convert records owner raw t' place = .ok v := by
        intro h
        obtain ⟨t', ht', hv⟩ := ih h
        exact ⟨t', List.mem_cons_of_mem _ ht', hv⟩
      split at h
      · split at h
        · rename_i w hw
          cases h
          exact ⟨t, List.mem_cons_self .., hw⟩
        · cases h
        · exact hrest h
      · exact hrest h

/-- **What a union makes, one of its members makes.** -/
theorem exists_of_convert_union {raw : Json} {ts : List DeclaredType} {place : Place} {v : Value}
    (h : convert records owner raw (.union ts) place = .ok v) :
    ∃ t ∈ ts, convert records owner raw t place = .ok v := by
  rw [convert.eq_def] at h
  split at h
  · rename_i hnull
    cases h
    rw [DeclaredType.takesNull_union, List.any_eq_true] at hnull
    obtain ⟨t, ht, hnull⟩ := hnull
    exact ⟨t, ht, convert_null records owner t place hnull⟩
  · exact exists_of_convertUnion h

/-! ### All types -/

/-- A type that takes null has the shape of null. -/
theorem outline_of_takesNull (owner : String) {t : DeclaredType} (h : t.takesNull = true) :
    (t.outline owner).acceptsShape .null = true := by
  induction hn : sizeOf t using Nat.strongRecOn generalizing t with
  | _ n ih =>
      subst hn
      cases t with
      | union ts =>
          rw [DeclaredType.takesNull_union, List.any_eq_true] at h
          obtain ⟨t, ht, h⟩ := h
          rw [DeclaredType.outline_union, acceptsShape_union, List.any_map, List.any_eq_true]
          have hlt := List.sizeOf_lt_of_mem ht
          exact ⟨t, ht, ih _ (by simp only [DeclaredType.union.sizeOf_spec]; omega) h rfl⟩
      | optional inner =>
          rw [DeclaredType.outline, acceptsShape]
          rfl
      | null => rfl
      | _ => cases h

/-- **Induction over the conversions that succeed**, one case for each way to make a value; types
without parts are one case, and so are those that stand for a record. -/
theorem accepts_induction {P : String → DeclaredType → Json → Value → Prop}
    (null : ∀ owner t, t.takesNull = true → P owner t .null .null)
    (scalar : ∀ owner t raw v, t.isScalar = true → scalar t raw = .ok (some v) → P owner t raw v)
    (optional : ∀ owner inner raw v, P owner inner raw v → P owner (.optional inner) raw v)
    (member : ∀ owner ts t raw v, t ∈ ts → P owner t raw v → P owner (.union ts) raw v)
    (items : ∀ owner t items raws vs, t.items? = some items →
      List.Forall₂ (fun raw v => Accepts records owner items raw v ∧ P owner items raw v) raws vs →
      P owner t (.array raws) (.array vs))
    (dict : ∀ owner values members entries,
      List.Forall₂ (fun m e => m.1 = e.1 ∧ Accepts records owner values m.2 e.2 ∧
        P owner values m.2 e.2) members entries →
      P owner (.dict values) (.object members) (.mapOf entries))
    (record : ∀ owner t name declared members fields, t.record? owner = some name →
      records.find? (·.name = name) = some declared →
      List.Forall₂ (FromMember members fun f raw v => Accepts records name f.type raw v ∧
        P name f.type raw v) (written members declared.fields) fields →
      P owner t (.object members) (.record ⟨name, fields⟩))
    {owner : String} {t : DeclaredType} {raw : Json} {v : Value}
    (h : Accepts records owner t raw v) : P owner t raw v := by
  induction hn : sizeOf raw using Nat.strongRecOn generalizing owner t raw v with
  | _ n ih =>
      subst hn
      -- an optional type and a union pass the same JSON on to a smaller type
      induction hm : sizeOf t using Nat.strongRecOn generalizing t with
      | _ m ihtype =>
          subst hm
          obtain ⟨place, h⟩ := h
          by_cases hunion : ∃ ts, t = .union ts
          · obtain ⟨ts, rfl⟩ := hunion
            obtain ⟨t, ht, h⟩ := exists_of_convert_union h
            have hlt := List.sizeOf_lt_of_mem ht
            refine member owner ts t raw v ht (ihtype _ ?_ ⟨place, h⟩ rfl)
            simp only [DeclaredType.union.sizeOf_spec]
            omega
          cases taken_of_convert h fun ts hts => hunion ⟨ts, hts⟩ with
          | null hnull => exact null owner t hnull
          | scalar ht hv => exact scalar owner t raw v ht hv
          | @optional inner _ _ _ h =>
              exact optional owner inner raw v (ihtype _ (by simp) ⟨place, h⟩ rfl)
          | items hi hvs =>
              refine items owner t _ _ _ hi (forall₂_imp_of_mem hvs fun raw hraw v _ h => ?_)
              exact ⟨h, ih _ (Json.sizeOf_lt_array hraw) h rfl⟩
          | dict hentries =>
              refine dict owner _ _ _ (forall₂_imp_of_mem hentries fun m hm e _ h => ?_)
              exact ⟨h.1, h.2, ih _ (Json.sizeOf_lt_object hm) h.2 rfl⟩
          | record hname hfind _ hfields =>
              refine record owner t _ _ _ _ hname hfind ?_
              refine (accepts_of_convertFields hfields).imp fun f e h => ?_
              obtain ⟨hf, raw, hraw, h⟩ := h
              have hlt := Json.sizeOf_lt_object (Keyed.mem_of_get? hraw)
              exact ⟨hf, raw, hraw, ⟨_, h⟩, ih _ hlt ⟨_, h⟩ rfl⟩

/-- **A converted value has the shape of the declaration.** -/
theorem outline_of_convert {t : DeclaredType} {raw : Json} (hraw : raw.InRange) {v : Value}
    (h : Accepts records owner t raw v) : (t.outline owner).acceptsShape v = true := by
  refine accepts_induction
    (P := fun owner t raw v => raw.InRange → (t.outline owner).acceptsShape v = true)
    ?null ?scalar ?optional ?member ?items ?dict ?record h hraw
  case null => exact fun owner t hnull _ => outline_of_takesNull owner hnull
  case scalar => exact fun owner t raw v _ hv hraw => outline_of_scalar hraw hv owner
  case optional =>
    intro owner inner raw v ih hraw
    rw [DeclaredType.outline, acceptsShape, ih hraw, Bool.or_true]
  case member =>
    intro owner ts t raw v ht ih hraw
    rw [DeclaredType.outline_union, acceptsShape_union, List.any_map, List.any_eq_true]
    exact ⟨t, ht, ih hraw⟩
  case items =>
    intro owner t items raws vs hi hvs hraw
    cases hraw with
    | array hraw =>
        rw [DeclaredType.outline_of_items? hi, acceptsShape_array, List.all_eq_true]
        intro w hw
        obtain ⟨item, hitem, -, ih⟩ := exists_left_of_forall₂ hvs hw
        exact ih (hraw item hitem)
  case dict =>
    intro owner values members entries hentries hraw
    cases hraw with
    | object hraw =>
        rw [DeclaredType.outline, Value.mapOf, acceptsShape_map, List.all_eq_true]
        intro e he
        obtain ⟨m, hm, -, -, ih⟩ := exists_left_of_forall₂ hentries (Keyed.mem_ofUnsorted he)
        exact ih (hraw m hm)
  case record =>
    intro owner t name declared members fields hname _ _ _
    rw [DeclaredType.outline_of_record? hname, acceptsShape, beq_self_eq_true]

/-- **A converted value has the shape of the settled type.** -/
theorem acceptsShape_of_convert {ctx : FieldSite} {t : DeclaredType} {d : Descriptor} {raw : Json}
    (hraw : raw.InRange) {place : Place} {v : Value} (hd : ofDeclared ctx t = .ok d)
    (h : convert records ctx.record raw t place = .ok v) : d.acceptsShape v = true := by
  rw [acceptsShape_eq_outline hd]
  exact outline_of_convert hraw ⟨place, h⟩

end Conversion

end RecordModel
