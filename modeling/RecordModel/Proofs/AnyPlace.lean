/-
**Conversions wherever something stands.**

The place of something written is part of the words of a refusal, and decides nothing else.  So what
becomes of a conversion is a function of the type, of its record and of what is written, with
equations in which there are no places: the items of an array, the entries of a map and the fields
of a record are made one after the other until one of them fails.

Main definitions:

* `Conversion.made` — what becomes of something written for a type;
* `Conversion.present` — the fields that have a member, with what is written in it.

Main results:

* `Conversion.outcome_convert_eq_made` — **the place decides nothing but the words of a refusal**;
* `Conversion.made_optional`, `Conversion.made_union`, `Conversion.made_array`,
  `Conversion.made_dict`, `Conversion.made_object` — what is made, by the form of the type.
-/

import RecordModel.Proofs.SettledAlike

set_option relaxedAutoImplicit false
set_option autoImplicit false

namespace RecordModel

namespace Conversion

/-! ### Outcomes of steps -/

theorem outcome_bind {α β : Type} (x : Except Failure α) (f : α → Except Failure β) :
    outcome (x >>= f) = outcome x >>= fun a => outcome (f a) := by
  cases x with
  | ok a => rfl
  | error failure => cases failure <;> rfl

theorem outcome_map {α β : Type} (f : α → β) (x : Except Failure α) :
    outcome (f <$> x) = f <$> outcome x := by
  cases x with
  | ok a => rfl
  | error failure => cases failure <;> rfl

/-- The outcome of steps that are taken one by one. -/
theorem outcome_mapM {α β : Type} (f : α → Except Failure β) (as : List α) :
    outcome (as.mapM f) = as.mapM fun a => outcome (f a) := by
  induction as with
  | nil => rfl
  | cons a as ih =>
      rw [List.mapM_cons, List.mapM_cons, outcome_bind]
      refine bind_congr fun b => ?_
      rw [outcome_bind, ih]
      rfl

/-! ### What is made -/

section

variable (records : List DeclaredRecord) (owner : String)

/-- What becomes of something written for a type. -/
def made (t : DeclaredType) (raw : Json) : Except (Option Breakdown) Value :=
  outcome (convert records owner raw t .document)

/-- What becomes of something written for a field, with the name of the field. -/
def madeField (p : DeclaredField × Json) : Except (Option Breakdown) (String × Value) :=
  (p.1.name, ·) <$> made records owner p.1.type p.2

/-- What becomes of something written for a type without parts. -/
def madeScalar (t : DeclaredType) (raw : Json) : Except (Option Breakdown) Value :=
  match scalar t raw with
  | .ok (some v) => .ok v
  | .ok none => .error none
  | .error b => .error (some b)

end

/-- The fields that have a member, with what is written in it. -/
def present (members : List (String × Json)) (declared : List DeclaredField) :
    List (DeclaredField × Json) :=
  declared.filterMap fun f => (Keyed.get? f.name members).map fun raw => (f, raw)

theorem mem_of_mem_present {members : List (String × Json)} {declared : List DeclaredField}
    {p : DeclaredField × Json} (h : p ∈ present members declared) :
    (p.1.name, p.2) ∈ members := by
  obtain ⟨f, -, hp⟩ := List.mem_filterMap.mp h
  obtain ⟨raw, hraw, rfl⟩ := Option.map_eq_some_iff.mp hp
  exact Keyed.mem_of_get? hraw

/-- What becomes of an object for the record with the name. -/
def madeObject (records : List DeclaredRecord) (name : String) (members : List (String × Json)) :
    Except (Option Breakdown) Value :=
  match records.find? (·.name = name) with
  | none => .error none
  | some declared =>
      match objectFault? name declared.fields members with
      | some _ => .error none
      | none =>
          (fun fields => .record ⟨name, fields⟩) <$>
            (present members declared.fields).mapM (madeField records name)

variable {records : List DeclaredRecord} {owner : String} {raw : Json}

/-- What is written is made into the same thing at all places. -/
def Placeless (records : List DeclaredRecord) (owner : String) (t : DeclaredType) (raw : Json) :
    Prop :=
  ∀ place, outcome (convert records owner raw t place) = made records owner t raw

theorem outcome_convertItems {items : DeclaredType} {raws : List Json}
    (h : ∀ raw ∈ raws, Placeless records owner items raw) (place : Place) (index : Nat) :
    outcome (convertItems records owner raws items place index) =
      raws.mapM (made records owner items) := by
  induction raws generalizing index with
  | nil =>
      rw [convertItems, List.mapM_nil]
      rfl
  | cons raw raws ih =>
      obtain ⟨hraw, hraws⟩ := List.forall_mem_cons.mp h
      rw [convertItems, List.mapM_cons, outcome_bind, hraw]
      refine bind_congr fun v => ?_
      rw [outcome_bind, ih hraws]
      rfl

theorem outcome_convertEntries {values : DeclaredType} {members : List (String × Json)}
    (h : ∀ m ∈ members, Placeless records owner values m.2) (place : Place) :
    outcome (convertEntries records owner members values place) =
      members.mapM fun m => (m.1, ·) <$> made records owner values m.2 := by
  induction members with
  | nil =>
      rw [convertEntries, List.mapM_nil]
      rfl
  | cons m members ih =>
      obtain ⟨hm, hmembers⟩ := List.forall_mem_cons.mp h
      obtain ⟨key, raw⟩ := m
      rw [convertEntries, List.mapM_cons, outcome_bind, hm, bind_map_left]
      refine bind_congr fun v => ?_
      rw [outcome_bind, ih hmembers]
      rfl

theorem outcome_convertFields {members : List (String × Json)} {declared : List DeclaredField}
    (h : ∀ p ∈ present members declared, Placeless records owner p.1.type p.2) (place : Place) :
    outcome (convertFields records owner members declared place) =
      (present members declared).mapM (madeField records owner) := by
  induction declared with
  | nil =>
      rw [convertFields, present, List.filterMap_nil, List.mapM_nil]
      rfl
  | cons f rest ih =>
      rw [convertFields]
      rw [present, List.filterMap_cons] at h ⊢
      cases hraw : Keyed.get? f.name members with
      | none =>
          rw [hraw] at h
          exact ih h
      | some raw =>
          rw [hraw] at h
          obtain ⟨hf, hrest⟩ := List.forall_mem_cons.mp h
          dsimp only [Option.map_some]
          rw [List.mapM_cons, outcome_bind, hf, madeField, bind_map_left]
          refine bind_congr fun v => ?_
          rw [outcome_bind, ih hrest]
          rfl

theorem outcome_convertScalar (t : DeclaredType) (place : Place) :
    outcome (convertScalar raw t place) = madeScalar t raw := by
  rw [convertScalar, madeScalar]
  cases scalar t raw with
  | error b => rfl
  | ok v => cases v <;> rfl

theorem outcome_convertObject {name : String} {members : List (String × Json)}
    (h : ∀ owner t m, m ∈ members → Placeless records owner t m.2) (place : Place) :
    outcome (convertObject records name members place) = madeObject records name members := by
  rw [convertObject, madeObject]
  cases records.find? (·.name = name) with
  | none => rfl
  | some declared =>
      dsimp only
      cases objectFault? name declared.fields members with
      | some fault => rfl
      | none =>
          dsimp only
          rw [outcome_bind, outcome_convertFields fun p hp => h _ _ _ (mem_of_mem_present hp)]
          rfl

theorem attempt_eq_of_placeless {ts : List DeclaredType}
    (h : ∀ t ∈ ts, Placeless records owner t raw) (place place' : Place) :
    attempt records owner raw place ts = attempt records owner raw place' ts := by
  induction ts with
  | nil => rfl
  | cons t ts ih =>
      obtain ⟨ht, hts⟩ := List.forall_mem_cons.mp h
      rw [attempt_cons, attempt_cons, ht, ht, ih hts]

/-! ### Places -/

/-- The members of a union that something written is offered to. -/
def offered (owner : String) (raw : Json) (ts : List DeclaredType) : List DeclaredType :=
  ts.filter fun t => ((tagOfValue? raw).map (isRecord owner t)).getD true

theorem placeless_union (hraw : raw ≠ .null) {ts : List DeclaredType}
    (h : ∀ t ∈ ts, Placeless records owner t raw) : Placeless records owner (.union ts) raw := by
  intro place
  rw [made, convert_union _ _ _ _ _ hraw, convert_union _ _ _ _ _ hraw, outcome_convertUnion,
    outcome_convertUnion]
  exact attempt_eq_of_placeless (fun t ht => h t (List.mem_filter.mp ht).1) _ _

/-- Arrays are made item by item. -/
theorem placeless_items {t items : DeclaredType} (hi : t.items? = some items)
    (h : ∀ raws, raw = .array raws → ∀ item ∈ raws, Placeless records owner items item) :
    Placeless records owner t raw := by
  intro place
  by_cases harray : ∃ raws, raw = .array raws
  · obtain ⟨raws, rfl⟩ := harray
    rw [made, convert_array hi, convert_array hi, outcome_map, outcome_map,
      outcome_convertItems (h raws rfl), outcome_convertItems (h raws rfl)]
  · rw [not_exists] at harray
    rw [made, outcome_convert_not_array hi harray, outcome_convert_not_array hi harray]

/-- Maps are made entry by entry. -/
theorem placeless_dict {values : DeclaredType}
    (h : ∀ members, raw = .object members → ∀ m ∈ members, Placeless records owner values m.2) :
    Placeless records owner (.dict values) raw := by
  intro place
  by_cases hobject : ∃ members, raw = .object members
  · obtain ⟨members, rfl⟩ := hobject
    rw [made, convert, convert]
    rw [outcome_map, outcome_map, outcome_convertEntries (h members rfl),
      outcome_convertEntries (h members rfl)]
  · rw [not_exists] at hobject
    rw [made, outcome_convert_not_map hobject, outcome_convert_not_map hobject]

/-- Instances are made field by field. -/
theorem placeless_record {t : DeclaredType} {name : String} (hname : t.record? owner = some name)
    (h : ∀ members, raw = .object members → ∀ owner t m, m ∈ members →
      Placeless records owner t m.2) : Placeless records owner t raw := by
  intro place
  by_cases hobject : ∃ members, raw = .object members
  · obtain ⟨members, rfl⟩ := hobject
    rw [made, convert_object _ _ hname, convert_object _ _ hname,
      outcome_convertObject (h members rfl), outcome_convertObject (h members rfl)]
  · rw [not_exists] at hobject
    rw [made, outcome_convert_not_record hname hobject, outcome_convert_not_record hname hobject]

/-- **The place decides nothing but the words of a refusal.** -/
theorem outcome_convert_eq_made (t : DeclaredType) (raw : Json) (place : Place) :
    outcome (convert records owner raw t place) = made records owner t raw := by
  suffices h : Placeless records owner t raw from h place
  induction hn : sizeOf raw using Nat.strongRecOn generalizing owner t raw with
  | _ n ih =>
      subst hn
      by_cases hraw : raw = .null
      · subst hraw
        intro place
        rw [made, outcome_convert_null, outcome_convert_null]
      have hitems : ∀ items raws, raw = .array raws → ∀ item ∈ raws,
          Placeless records owner items item := by
        rintro items raws rfl item hitem
        exact ih _ (Json.sizeOf_lt_array hitem) items item rfl
      have hmembers : ∀ members, raw = .object members → ∀ owner t m, m ∈ members →
          Placeless records owner t m.2 := by
        rintro members rfl owner t m hm
        exact ih _ (Json.sizeOf_lt_object hm) t m.2 rfl
      induction t using DeclaredType.induction_members with
      | union ts ih => exact placeless_union hraw ih
      | optional inner ih =>
          intro place
          rw [made, convert_optional _ _ _ _ _ hraw, convert_optional _ _ _ _ _ hraw]
          exact ih place
      | plain t ht =>
          cases t with
          | union ts => cases ht
          | optional inner => cases ht
          | list items | tuple items => exact placeless_items rfl (hitems items)
          | dict values =>
              exact placeless_dict fun members hobject => hmembers members hobject owner values
          | record name | self => exact placeless_record rfl hmembers
          | _ =>
              intro place
              rw [made, convert_scalar records owner rfl fun h => absurd h hraw,
                convert_scalar records owner rfl fun h => absurd h hraw, outcome_convertScalar,
                outcome_convertScalar]

/-! ### Equations -/

/-- A value is made when the conversion has it, at any place. -/
theorem accepts_iff_made {t : DeclaredType} {v : Value} :
    Accepts records owner t raw v ↔ made records owner t raw = .ok v := by
  constructor
  · rintro ⟨place, h⟩
    rw [← outcome_convert_eq_made t raw place, h, outcome_ok]
  · exact fun h => ⟨.document, outcome_eq_ok_iff.mp h⟩

theorem made_null (t : DeclaredType) :
    made records owner t .null = if t.takesNull then .ok .null else .error none :=
  outcome_convert_null t

theorem made_scalar {t : DeclaredType} (ht : t.isScalar = true) (hraw : raw ≠ .null) :
    made records owner t raw = madeScalar t raw := by
  rw [made, convert_scalar records owner ht fun h => absurd h hraw, outcome_convertScalar]

theorem made_optional (hraw : raw ≠ .null) (inner : DeclaredType) :
    made records owner (.optional inner) raw = made records owner inner raw := by
  rw [made, convert_optional _ _ _ _ _ hraw, made]

theorem made_union (hraw : raw ≠ .null) (ts : List DeclaredType) :
    made records owner (.union ts) raw =
      attempt records owner raw .document (offered owner raw ts) := by
  rw [made, convert_union _ _ _ _ _ hraw, outcome_convertUnion, offered]

theorem made_array {t items : DeclaredType} (hi : t.items? = some items) (raws : List Json) :
    made records owner t (.array raws) =
      .array <$> raws.mapM (made records owner items) := by
  rw [made, convert_array hi, outcome_map,
    outcome_convertItems fun item _ place => outcome_convert_eq_made items item place]

theorem made_dict (values : DeclaredType) (members : List (String × Json)) :
    made records owner (.dict values) (.object members) =
      .mapOf <$> members.mapM fun m => (m.1, ·) <$> made records owner values m.2 := by
  rw [made, convert]
  rw [outcome_map,
    outcome_convertEntries fun m _ place => outcome_convert_eq_made values m.2 place]

theorem made_object {t : DeclaredType} {name : String} (hname : t.record? owner = some name)
    (members : List (String × Json)) :
    made records owner t (.object members) = madeObject records name members := by
  rw [made, convert_object _ _ hname,
    outcome_convertObject fun owner t m _ place => outcome_convert_eq_made t m.2 place]

theorem made_not_array {t items : DeclaredType} (hi : t.items? = some items)
    (hraw : ∀ raws, raw ≠ .array raws) : made records owner t raw = .error none :=
  outcome_convert_not_array hi hraw

theorem made_not_map {values : DeclaredType} (hraw : ∀ members, raw ≠ .object members) :
    made records owner (.dict values) raw = .error none :=
  outcome_convert_not_map hraw

theorem made_not_record {t : DeclaredType} {name : String} (hname : t.record? owner = some name)
    (hraw : ∀ members, raw ≠ .object members) : made records owner t raw = .error none :=
  outcome_convert_not_record hname hraw

end Conversion

end RecordModel
