/-
**Day numbers that break a conversion down.**

Whatever is written for a type is converted or refused, with one exception.  The number of a day is
taken for a length of time first, and a number beyond the greatest length of time breaks the whole
conversion down before it can be refused.  It does so also where a later member of a union would
take it.  What breaks down is said exactly: a date has to be reached with such a number, behind
items, entries, fields and defaults that are converted and members of unions that refuse.

Main definitions:

* `Conversion.FarDay` — a number of days beyond the greatest length of time;
* `Conversion.MeetsFarDay` — on the way such a number is met by a date;
* `Document.givenDefaults` — the defaults of a document in order.

Main results:

* `Conversion.convert_breakdown_iff` — a conversion breaks down exactly when a date meets such a
  number;
* `Model.ofJson_breakdown_iff` — so does a document, by its first default that is not converted;
* `Model.breaks_down_iff` — **documents and values for fields are read or refused, unless a date
  meets such a number; numbers for any other type of times are read or refused**;
* `Model.far_day_breaks_down` — a default that is the number of a far day, by example.
-/

import RecordModel.Proofs.AnyPlace

set_option relaxedAutoImplicit false
set_option autoImplicit false

namespace RecordModel

/-! ### The first of some things -/

section

variable {α : Type} {P Q : α → Prop} {as : List α} {a : α}

/-- Something in the list has `Q`, and everything before it has `P`. -/
def FirstWith (P Q : α → Prop) (as : List α) : Prop :=
  ∃ before a after, as = before ++ a :: after ∧ (∀ x ∈ before, P x) ∧ Q a

theorem not_firstWith_nil : ¬ FirstWith P Q [] := by
  rintro ⟨before, a, after, h, -⟩
  exact absurd h.symm (List.append_ne_nil_of_right_ne_nil _ (List.cons_ne_nil _ _))

/-- It is the first thing, or comes behind the first thing. -/
theorem firstWith_cons : FirstWith P Q (a :: as) ↔ Q a ∨ P a ∧ FirstWith P Q as := by
  constructor
  · rintro ⟨before, b, after, hsplit, hbefore, hb⟩
    cases before with
    | nil =>
        cases hsplit
        exact .inl hb
    | cons c before =>
        cases hsplit
        obtain ⟨ha, hbefore⟩ := List.forall_mem_cons.mp hbefore
        exact .inr ⟨ha, before, b, after, rfl, hbefore, hb⟩
  · rintro (ha | ⟨ha, before, b, after, rfl, hbefore, hb⟩)
    · exact ⟨[], a, as, rfl, List.forall_mem_nil _, ha⟩
    · exact ⟨a :: before, b, after, rfl, List.forall_mem_cons.mpr ⟨ha, hbefore⟩, hb⟩

theorem firstWith_congr {P' Q' : α → Prop} (hP : ∀ a ∈ as, (P a ↔ P' a))
    (hQ : ∀ a ∈ as, (Q a ↔ Q' a)) : FirstWith P Q as ↔ FirstWith P' Q' as := by
  induction as with
  | nil => exact iff_of_false not_firstWith_nil not_firstWith_nil
  | cons a as ih =>
      obtain ⟨hPa, hPas⟩ := List.forall_mem_cons.mp hP
      obtain ⟨hQa, hQas⟩ := List.forall_mem_cons.mp hQ
      rw [firstWith_cons, firstWith_cons, hPa, hQa, ih hPas hQas]

end

/-! ### Steps that fail -/

section

variable {ε α β γ : Type}

theorem map_eq_error_iff {f : α → β} {x : Except ε α} {e : ε} :
    f <$> x = .error e ↔ x = .error e := by
  cases x with
  | error e' =>
      change Except.error e' = Except.error e ↔ _
      rw [Except.error.injEq, Except.error.injEq]
  | ok a => exact iff_of_false (fun h => by cases h) fun h => by cases h

theorem exists_map_eq_ok_iff {f : α → β} {x : Except ε α} :
    (∃ b, f <$> x = .ok b) ↔ ∃ a, x = .ok a := by
  constructor
  · rintro ⟨b, h⟩
    obtain ⟨a, ha, -⟩ := exists_of_map_eq_ok h
    exact ⟨a, ha⟩
  · rintro ⟨a, rfl⟩
    exact ⟨f a, rfl⟩

/-- A function of two values fails when the first one fails, or the second one behind the first. -/
theorem both_eq_error_iff {x : Except ε α} {y : Except ε β} {f : α → β → γ} {e : ε} :
    (do return f (← x) (← y)) = (.error e : Except ε γ) ↔
      x = .error e ∨ (∃ a, x = .ok a) ∧ y = .error e := by
  cases x with
  | error e' =>
      change Except.error e' = Except.error e ↔ _
      simp
  | ok a =>
      change f a <$> y = _ ↔ _
      rw [map_eq_error_iff]
      simp

/-- **One step for each of some things fails when a step fails behind steps that do not.** -/
theorem mapM_eq_error_iff {f : α → Except ε β} {as : List α} {e : ε} :
    as.mapM f = .error e ↔ FirstWith (fun a => ∃ b, f a = .ok b) (fun a => f a = .error e) as := by
  induction as with
  | nil => exact iff_of_false (fun h => by cases h) not_firstWith_nil
  | cons a as ih => rw [List.mapM_cons, firstWith_cons, ← ih, both_eq_error_iff]

end

namespace Conversion

/-! ### Far days -/

/-- The number of a day that is beyond the greatest length of time. -/
def FarDay (raw : Json) : Prop := ∃ n, raw.toInt64? = some n ∧ mostDays < n.toInt.natAbs

/-- A date breaks down at the number of a far day. -/
theorem dateOf_eq_error_iff {raw : Json} {b : Breakdown} :
    dateOf raw = .error b ↔ b = .dayNumber ∧ FarDay raw := by
  rw [dateOf.eq_def]
  split
  · refine iff_of_false (fun h => by cases h) ?_
    rintro ⟨-, n, hn, -⟩
    cases hn
  · split
    · rename_i n hn
      split
      · rename_i hfar
        constructor
        · intro h
          cases h
          exact ⟨rfl, n, hn, hfar⟩
        · rintro ⟨rfl, -⟩
          rfl
      · rename_i hnear
        refine iff_of_false (fun h => by cases h) ?_
        rintro ⟨-, m, hm, hfar⟩
        cases hn.symm.trans hm
        exact hnear hfar
    · rename_i hnone
      refine iff_of_false (fun h => by cases h) ?_
      rintro ⟨-, n, hn, -⟩
      cases hnone.symm.trans hn

theorem scalar_eq_error_iff {t : DeclaredType} {raw : Json} {b : Breakdown} :
    scalar t raw = .error b ↔ b = .dayNumber ∧ t = .date ∧ FarDay raw := by
  cases t with
  | date =>
      rw [scalar, bind_pure_comp, map_eq_error_iff, dateOf_eq_error_iff]
      simp
  | _ => exact iff_of_false (fun h => by cases h) fun h => DeclaredType.noConfusion h.2.1

variable {records : List DeclaredRecord} {owner : String} {t : DeclaredType} {raw : Json}

/-- Some value is read for the type. -/
def Accepted (records : List DeclaredRecord) (owner : String) (t : DeclaredType) (raw : Json) :
    Prop :=
  ∃ v, Accepts records owner t raw v

/-- What is written is refused for the type. -/
def Refused (records : List DeclaredRecord) (owner : String) (t : DeclaredType) (raw : Json) :
    Prop :=
  ∃ place e, convert records owner raw t place = .error (.error e)

/-- **On the way of a conversion a date meets the number of a far day**: the conversion comes to
that date, because everything before it is converted or, in a union, refused. -/
inductive MeetsFarDay (records : List DeclaredRecord) : String → DeclaredType → Json → Prop
  | date {owner : String} {raw : Json} : FarDay raw → MeetsFarDay records owner .date raw
  | optional {owner : String} {inner : DeclaredType} {raw : Json} :
      MeetsFarDay records owner inner raw → MeetsFarDay records owner (.optional inner) raw
  | member {owner : String} {ts before after : List DeclaredType} {t : DeclaredType} {raw : Json} :
      offered owner raw ts = before ++ t :: after → (∀ s ∈ before, Refused records owner s raw) →
      MeetsFarDay records owner t raw → MeetsFarDay records owner (.union ts) raw
  | item {owner : String} {t items : DeclaredType} {before after : List Json} {raw : Json} :
      t.items? = some items → (∀ r ∈ before, Accepted records owner items r) →
      MeetsFarDay records owner items raw →
      MeetsFarDay records owner t (.array (before ++ raw :: after))
  | entry {owner : String} {values : DeclaredType} {before after : List (String × Json)}
      {m : String × Json} :
      (∀ m ∈ before, Accepted records owner values m.2) →
      MeetsFarDay records owner values m.2 →
      MeetsFarDay records owner (.dict values) (.object (before ++ m :: after))
  | field {owner name : String} {t : DeclaredType} {declared : DeclaredRecord}
      {members : List (String × Json)} {before after : List (DeclaredField × Json)}
      {p : DeclaredField × Json} :
      t.record? owner = some name → records.find? (·.name = name) = some declared →
      objectFault? name declared.fields members = none →
      present members declared.fields = before ++ p :: after →
      (∀ q ∈ before, Accepted records name q.1.type q.2) →
      MeetsFarDay records name p.1.type p.2 → MeetsFarDay records owner t (.object members)

/-- Null is no day. -/
theorem MeetsFarDay.ne_null (h : MeetsFarDay records owner t raw) : raw ≠ .null := by
  induction h with
  | date hfar =>
      rintro rfl
      obtain ⟨n, hn, -⟩ := hfar
      cases hn
  | optional _ ih | member _ _ _ ih => exact ih
  | _ => exact Json.noConfusion

/-! ### What breaks down -/

theorem accepted_iff_made :
    Accepted records owner t raw ↔ ∃ v, made records owner t raw = .ok v :=
  exists_congr fun _ => accepts_iff_made

theorem refused_iff_made :
    Refused records owner t raw ↔ made records owner t raw = .error none := by
  constructor
  · rintro ⟨place, e, h⟩
    rw [← outcome_convert_eq_made t raw place, h]
    rfl
  · intro h
    rw [made] at h
    cases hconvert : convert records owner raw t .document with
    | ok v =>
        rw [hconvert] at h
        cases h
    | error failure =>
        rw [hconvert] at h
        cases failure with
        | error e => exact ⟨.document, e, hconvert⟩
        | breakdown b => cases h

/-- Attempts break down at a type that does behind types that refuse. -/
theorem attempt_eq_breakdown_iff {ts : List DeclaredType} {b : Breakdown} :
    attempt records owner raw .document ts = .error (some b) ↔
      FirstWith (fun t => Refused records owner t raw)
        (fun t => made records owner t raw = .error (some b)) ts := by
  induction ts with
  | nil => exact iff_of_false (fun h => by cases h) not_firstWith_nil
  | cons t ts ih =>
      rw [attempt_cons, firstWith_cons, ← ih, refused_iff_made]
      change orNext (made records owner t raw) _ = _ ↔ _
      cases made records owner t raw with
      | ok v => simp [orNext]
      | error fault => cases fault <;> simp [orNext]

section

variable {b : Breakdown}

/-- An array breaks down at one of its items. -/
theorem meetsFarDay_of_items {items : DeclaredType} (hi : t.items? = some items)
    (ih : ∀ raws, raw = .array raws → ∀ item ∈ raws,
      made records owner items item = .error (some b) →
      b = .dayNumber ∧ MeetsFarDay records owner items item)
    (h : made records owner t raw = .error (some b)) :
    b = .dayNumber ∧ MeetsFarDay records owner t raw := by
  by_cases harray : ∃ raws, raw = .array raws
  · obtain ⟨raws, rfl⟩ := harray
    rw [made_array hi, map_eq_error_iff, mapM_eq_error_iff] at h
    obtain ⟨before, item, after, rfl, hbefore, h⟩ := h
    obtain ⟨hb, hmeets⟩ := ih _ rfl item (by simp) h
    exact ⟨hb, .item hi (fun r hr => accepted_iff_made.mpr (hbefore r hr)) hmeets⟩
  · rw [not_exists] at harray
    rw [made_not_array hi harray] at h
    cases h

/-- A map breaks down at one of its entries. -/
theorem meetsFarDay_of_dict {values : DeclaredType}
    (ih : ∀ members, raw = .object members → ∀ m ∈ members,
      made records owner values m.2 = .error (some b) →
      b = .dayNumber ∧ MeetsFarDay records owner values m.2)
    (h : made records owner (.dict values) raw = .error (some b)) :
    b = .dayNumber ∧ MeetsFarDay records owner (.dict values) raw := by
  by_cases hobject : ∃ members, raw = .object members
  · obtain ⟨members, rfl⟩ := hobject
    rw [made_dict, map_eq_error_iff, mapM_eq_error_iff] at h
    obtain ⟨before, m, after, rfl, hbefore, h⟩ := h
    obtain ⟨hb, hmeets⟩ := ih _ rfl m (by simp) (map_eq_error_iff.mp h)
    refine ⟨hb, .entry (fun r hr => accepted_iff_made.mpr ?_) hmeets⟩
    exact exists_map_eq_ok_iff.mp (hbefore r hr)
  · rw [not_exists] at hobject
    rw [made_not_map hobject] at h
    cases h

/-- An object for a record breaks down at one of its fields. -/
theorem meetsFarDay_of_record {name : String} (hname : t.record? owner = some name)
    (ih : ∀ members, raw = .object members → ∀ owner t m, m ∈ members →
      made records owner t m.2 = .error (some b) →
      b = .dayNumber ∧ MeetsFarDay records owner t m.2)
    (h : made records owner t raw = .error (some b)) :
    b = .dayNumber ∧ MeetsFarDay records owner t raw := by
  by_cases hobject : ∃ members, raw = .object members
  · obtain ⟨members, rfl⟩ := hobject
    rw [made_object hname, madeObject] at h
    split at h
    · cases h
    · rename_i declared hfind
      split at h
      · cases h
      · rename_i hfault
        rw [map_eq_error_iff, mapM_eq_error_iff] at h
        obtain ⟨before, p, after, hsplit, hbefore, h⟩ := h
        have hp : p ∈ present members declared.fields := by simp [hsplit]
        obtain ⟨hb, hmeets⟩ := ih members rfl name p.1.type _ (mem_of_mem_present hp)
          (map_eq_error_iff.mp h)
        refine ⟨hb, .field hname hfind hfault hsplit (fun q hq => accepted_iff_made.mpr ?_) hmeets⟩
        exact exists_map_eq_ok_iff.mp (hbefore q hq)
  · rw [not_exists] at hobject
    rw [made_not_record hname hobject] at h
    cases h

/-- What breaks down meets the number of a far day. -/
theorem meetsFarDay_of_made (h : made records owner t raw = .error (some b)) :
    b = .dayNumber ∧ MeetsFarDay records owner t raw := by
  induction hn : sizeOf raw using Nat.strongRecOn generalizing owner t raw with
  | _ n ih =>
      subst hn
      have hraw : raw ≠ .null := by
        rintro rfl
        rw [made_null] at h
        split at h <;> cases h
      induction t using DeclaredType.induction_members with
      | union ts ihmember =>
          rw [made_union hraw, attempt_eq_breakdown_iff] at h
          obtain ⟨before, t, after, hsplit, hbefore, h⟩ := h
          have ht : t ∈ offered owner raw ts := by simp [hsplit]
          obtain ⟨hb, hmeets⟩ := ihmember t (List.mem_filter.mp ht).1 h
          exact ⟨hb, .member hsplit hbefore hmeets⟩
      | optional inner ihinner =>
          rw [made_optional hraw] at h
          exact (ihinner h).imp_right .optional
      | plain t ht =>
          have hmembers : ∀ members, raw = .object members → ∀ owner t m, m ∈ members →
              made records owner t m.2 = .error (some b) →
              b = .dayNumber ∧ MeetsFarDay records owner t m.2 := by
            rintro members rfl owner t m hm h
            exact ih _ (Json.sizeOf_lt_object hm) h rfl
          cases t with
          | union ts => cases ht
          | optional inner => cases ht
          | list items | tuple items =>
              refine meetsFarDay_of_items rfl (fun raws hraws item hitem hmade => ?_) h
              subst hraws
              exact ih _ (Json.sizeOf_lt_array hitem) hmade rfl
          | dict values =>
              exact meetsFarDay_of_dict (fun members hobject => hmembers members hobject owner
                values) h
          | record name | self => exact meetsFarDay_of_record rfl hmembers h
          | _ =>
              rw [made_scalar rfl hraw, madeScalar] at h
              split at h
              · cases h
              · cases h
              · rename_i hscalar
                cases h
                obtain ⟨hb, hdate, hfar⟩ := scalar_eq_error_iff.mp hscalar
                exact ⟨hb, hdate ▸ .date hfar⟩

/-- What meets the number of a far day breaks down. -/
theorem MeetsFarDay.made (h : MeetsFarDay records owner t raw) :
    made records owner t raw = .error (some .dayNumber) := by
  induction h with
  | @date owner raw hfar =>
      have hmeets : MeetsFarDay records owner .date raw := .date hfar
      rw [made_scalar rfl hmeets.ne_null, madeScalar, scalar_eq_error_iff.mpr ⟨rfl, rfl, hfar⟩]
  | optional h ih => rw [made_optional h.ne_null, ih]
  | member hsplit hbefore h ih =>
      rw [made_union h.ne_null, attempt_eq_breakdown_iff]
      exact ⟨_, _, _, hsplit, hbefore, ih⟩
  | item hi hbefore _ ih =>
      rw [made_array hi, map_eq_error_iff, mapM_eq_error_iff]
      exact ⟨_, _, _, rfl, fun r hr => accepted_iff_made.mp (hbefore r hr), ih⟩
  | entry hbefore _ ih =>
      rw [made_dict, map_eq_error_iff, mapM_eq_error_iff]
      refine ⟨_, _, _, rfl, fun m hm => ?_, map_eq_error_iff.mpr ih⟩
      exact exists_map_eq_ok_iff.mpr (accepted_iff_made.mp (hbefore m hm))
  | field hname hfind hfault hsplit hbefore _ ih =>
      rw [made_object hname, madeObject, hfind]
      dsimp only
      rw [hfault]
      dsimp only
      rw [map_eq_error_iff, mapM_eq_error_iff]
      refine ⟨_, _, _, hsplit, fun q hq => ?_, map_eq_error_iff.mpr ih⟩
      exact exists_map_eq_ok_iff.mpr (accepted_iff_made.mp (hbefore q hq))

/-- **A conversion breaks down exactly when a date meets the number of a far day.** -/
theorem convert_breakdown_iff {place : Place} :
    convert records owner raw t place = .error (.breakdown b) ↔
      b = .dayNumber ∧ MeetsFarDay records owner t raw := by
  have houtcome : convert records owner raw t place = .error (.breakdown b) ↔
      made records owner t raw = .error (some b) := by
    rw [← outcome_convert_eq_made t raw place]
    cases convert records owner raw t place with
    | ok v => simp [outcome]
    | error failure => cases failure <;> simp [outcome]
  rw [houtcome]
  exact ⟨meetsFarDay_of_made, fun h => h.1 ▸ h.2.made⟩

end

/-- **A type without parts converts what is written or refuses it**, but for a date and the number
of a far day. -/
theorem convert_scalar_cases (ht : t.isScalar = true) (raw : Json) (place : Place) :
    (∃ v, convert records owner raw t place = .ok v) ∨
      convert records owner raw t place = fail place (.mismatch raw t) ∨
      t = .date ∧ FarDay raw ∧
        convert records owner raw t place = .error (.breakdown .dayNumber) := by
  by_cases hnull : raw = .null ∧ t.takesNull = true
  · obtain ⟨rfl, hnull⟩ := hnull
    exact .inl ⟨.null, convert_null records owner t place hnull⟩
  · rw [not_and, Bool.not_eq_true] at hnull
    rw [convert_scalar records owner ht hnull, convertScalar]
    split
    · rename_i v _
      exact .inl ⟨v, rfl⟩
    · exact .inr (.inl rfl)
    · rename_i hb
      obtain ⟨rfl, hdate, hfar⟩ := scalar_eq_error_iff.mp hb
      exact .inr (.inr ⟨hdate, hfar, rfl⟩)

end Conversion

namespace Document

open Conversion

/-! ### Defaults of a document -/

/-- A default that is written for a field of a record. -/
structure GivenDefault where
  record : String
  field : DeclaredField
  raw : Json

/-- What the default is converted to. -/
def GivenDefault.convert (records : List DeclaredRecord) (g : GivenDefault) :
    Except Failure Value :=
  Conversion.convert records g.record g.raw g.field.type (.value g.record g.field.name)

/-- The default that is converted for a field, unless there is none or null is written. -/
def given? (record : String) (p : DeclaredField × Option Json) : Option GivenDefault :=
  match p.2 with
  | none => none
  | some .null => none
  | some raw => some ⟨record, p.1, raw⟩

/-- The defaults of a document that are converted, in order. -/
def givenDefaults (rs : List WrittenRecord) : List GivenDefault :=
  rs.flatMap fun r => (r.declaration.fields.zip r.defaults).filterMap (given? r.declaration.name)

/-- Whether there is a value, and the error if there is none. -/
def verdict {ε α : Type} (x : Except ε α) : Except ε Unit := (fun _ => ()) <$> x

section

variable {ε α β γ : Type}

theorem eq_error_iff_of_verdict {x : Except ε α} {y : Except ε β} (h : verdict x = verdict y)
    {e : ε} : x = .error e ↔ y = .error e := by
  have hx : verdict x = .error e ↔ x = .error e := map_eq_error_iff
  have hy : verdict y = .error e ↔ y = .error e := map_eq_error_iff
  rw [← hx, h, hy]

theorem verdict_map (f : α → β) (x : Except ε α) : verdict (f <$> x) = verdict x := by
  cases x <;> rfl

theorem verdict_both (f : α → β → γ) (x : Except ε α) (y : Except ε β) :
    verdict (do return f (← x) (← y)) = verdict x >>= fun _ => verdict y := by
  cases x with
  | error e => rfl
  | ok a => cases y <;> rfl

theorem verdict_mapM_cons (f : α → Except ε β) (a : α) (as : List α) :
    verdict ((a :: as).mapM f) = verdict (f a) >>= fun _ => verdict (as.mapM f) := by
  rw [List.mapM_cons]
  exact verdict_both (· :: ·) _ _

theorem verdict_mapM_append (f : α → Except ε β) (as bs : List α) :
    verdict ((as ++ bs).mapM f) = verdict (as.mapM f) >>= fun _ => verdict (bs.mapM f) := by
  rw [List.mapM_append]
  exact verdict_both (· ++ ·) _ _

end

variable {records : List DeclaredRecord}

theorem verdict_defaultOf (record : String) (p : DeclaredField × Option Json) :
    verdict (defaultOf records record p.1 p.2) =
      match given? record p with
      | none => .ok ()
      | some g => verdict (g.convert records) := by
  obtain ⟨field, _ | raw⟩ := p
  · rfl
  · cases raw with
    | null => rfl
    | _ => exact verdict_map _ _

/-- The verdict on the fields of a record is that on the defaults that are given for them. -/
theorem verdict_withDefaults (record : String) (fields : List DeclaredField)
    (written : List (Option Json)) :
    verdict (withDefaults records record fields written) =
      verdict (((fields.zip written).filterMap (given? record)).mapM
        (GivenDefault.convert records)) := by
  induction fields generalizing written with
  | nil => cases written <;> rfl
  | cons field fields ih =>
      cases written with
      | nil => rfl
      | cons w written =>
          rw [withDefaults, List.zip_cons_cons, List.filterMap_cons]
          refine (verdict_both _ (defaultOf records record field w) _).trans ?_
          rw [verdict_defaultOf record (field, w), ih]
          cases given? record (field, w) with
          | none => rfl
          | some g => exact (verdict_mapM_cons _ _ _).symm

theorem verdict_declarationsOf (rs : List WrittenRecord) :
    verdict (declarationsOf records rs) =
      verdict ((givenDefaults rs).mapM (GivenDefault.convert records)) := by
  induction rs with
  | nil => rfl
  | cons r rs ih =>
      rw [declarationsOf, givenDefaults, List.flatMap_cons, verdict_mapM_append, ← givenDefaults]
      refine (verdict_both _ (withDefaults records r.declaration.name _ _) _).trans ?_
      rw [verdict_withDefaults, ih]

/-- **The defaults of a document break down at one that does, behind others that are converted.** -/
theorem declarationsOf_breakdown_iff {rs : List WrittenRecord} {b : Breakdown} :
    declarationsOf records rs = .error (.breakdown b) ↔
      b = .dayNumber ∧
        FirstWith (fun g => Accepted records g.record g.field.type g.raw)
          (fun g => MeetsFarDay records g.record g.field.type g.raw) (givenDefaults rs) := by
  have haccepted (g : GivenDefault) : (∃ v, g.convert records = .ok v) ↔
      Accepted records g.record g.field.type g.raw := by
    refine exists_congr fun v => ?_
    rw [accepts_iff_made, ← outcome_convert_eq_made _ _ (.value g.record g.field.name),
      outcome_eq_ok_iff]
    exact Iff.rfl
  rw [eq_error_iff_of_verdict (verdict_declarationsOf rs), mapM_eq_error_iff]
  have hmeets (g : GivenDefault) : g.convert records = .error (.breakdown b) ↔
      b = .dayNumber ∧ MeetsFarDay records g.record g.field.type g.raw := convert_breakdown_iff
  rw [firstWith_congr (fun g _ => haccepted g) (fun g _ => hmeets g)]
  constructor
  · rintro ⟨before, g, after, hsplit, hbefore, hb, hg⟩
    exact ⟨hb, before, g, after, hsplit, hbefore, hg⟩
  · rintro ⟨hb, before, g, after, hsplit, hbefore, hg⟩
    exact ⟨before, g, after, hsplit, hbefore, hb, hg⟩

end Document

namespace Model

open Conversion Document

/-! ### Documents and values for fields -/

/-- A default of the document meets the number of a far day, behind others that are converted. -/
def DefaultMeetsFarDay (document : Json) : Prop :=
  ∃ rs, contents document = .ok rs ∧
    FirstWith
      (fun g => Accepted (rs.map (·.declaration)) g.record g.field.type g.raw)
      (fun g => MeetsFarDay (rs.map (·.declaration)) g.record g.field.type g.raw)
      (givenDefaults rs)

/-- What is written for the field of the record meets the number of a far day. -/
def FieldMeetsFarDay (m : Model) (record field : String) (raw : Json) : Prop :=
  ∃ owner declaration, m.record? record = some owner ∧ owner.field? field = some declaration ∧
    MeetsFarDay m.records record declaration.type raw

/-- **A document breaks down exactly when a default of it does.** -/
theorem ofJson_breakdown_iff {document : Json} {b : Breakdown} :
    ofJson document = .error (.breakdown b) ↔ b = .dayNumber ∧ DefaultMeetsFarDay document := by
  rw [ofJson, DefaultMeetsFarDay]
  cases contents document with
  | error e =>
      refine iff_of_false (fun h => by cases h) ?_
      rintro ⟨-, rs, h, -⟩
      cases h
  | ok rs =>
      change Model.mk <$> declarationsOf (rs.map (·.declaration)) rs = _ ↔ _
      rw [map_eq_error_iff, declarationsOf_breakdown_iff]
      simp

/-- **A value for a field breaks down exactly when a date in it meets the number of a far day.** -/
theorem valueFor_breakdown_iff {m : Model} {record field : String} {raw : Json} {b : Breakdown} :
    m.valueFor record field raw = .error (.breakdown b) ↔
      b = .dayNumber ∧ m.FieldMeetsFarDay record field raw := by
  rw [valueFor, FieldMeetsFarDay]
  cases m.record? record with
  | none => simp
  | some owner =>
      dsimp only
      cases hfield : owner.field? field with
      | none => simp [hfield, Conversion.fail]
      | some declaration =>
          cases raw with
          | null =>
              refine iff_of_false (fun h => by cases h) ?_
              rintro ⟨-, _, _, -, -, hmeets⟩
              exact hmeets.ne_null rfl
          | _ =>
              dsimp only
              rw [convert_breakdown_iff]
              simp [hfield]

/-- **Documents and values for fields are read or refused, unless a date meets the number of a far
day.**  A type without parts, and so every type of dates and times, converts what is written or
refuses it as a mismatch, but for a date and such a number. -/
theorem breaks_down_iff (document raw : Json) (m : Model) (record field : String)
    (b : Breakdown) :
    (ofJson document = .error (.breakdown b) ↔
      b = .dayNumber ∧ DefaultMeetsFarDay document) ∧
    (m.valueFor record field raw = .error (.breakdown b) ↔
      b = .dayNumber ∧ m.FieldMeetsFarDay record field raw) ∧
    ∀ records owner (t : DeclaredType) place, t.isScalar = true →
      (∃ v, convert records owner raw t place = .ok v) ∨
        convert records owner raw t place = Conversion.fail place (.mismatch raw t) ∨
        t = .date ∧ FarDay raw ∧
          convert records owner raw t place = .error (.breakdown .dayNumber) :=
  ⟨ofJson_breakdown_iff, valueFor_breakdown_iff,
    fun _ _ _ place ht => convert_scalar_cases ht raw place⟩

/-- The number of a far day is no time of day, and is refused as one. -/
theorem far_day_is_no_time :
    DeclaredType.timeMillis.isScalar = true ∧
      convert [] "Event" (.integer 106751991168) .timeMillis .document =
        Conversion.fail .document (.mismatch (.integer 106751991168) .timeMillis) := by
  refine ⟨rfl, ?_⟩
  obtain ⟨-, -, hscalar⟩ := breaks_down_iff .null (.integer 106751991168) ⟨[]⟩ "Event" "day"
    .dayNumber
  rcases hscalar [] "Event" .timeMillis .document rfl with h | h | h
  · obtain ⟨v, hv⟩ := h
    cases taken_of_convert hv fun _ => DeclaredType.noConfusion with
    | scalar _ hscalar => cases hscalar
  · exact h
  · cases h.1

/-- A record with a field for a date or a number. -/
def ofEvents : Model :=
  ⟨[⟨"Event", none, none, [],
    [⟨"day", .union [.date, .int64], none, ⟨none, none, none, none, none, []⟩⟩]⟩]⟩

/-- A record with a date, whose default is the number of a far day. -/
def eventsDocument : Json :=
  .object [("records", .array [.object [("name", .string "Event"), ("fields", .array [
    .object [("name", .string "day"), ("type", .string "date"),
      ("default", .integer 106751991168)]])]])]

/-- **Not every document is read or refused**: the number of a far day as the default of a date
breaks it down.  So does such a number for a date or a number, although it is a number. -/
theorem far_day_breaks_down :
    ofJson eventsDocument = .error (.breakdown .dayNumber) ∧
      ofEvents.valueFor "Event" "day" (.integer 106751991168) = .error (.breakdown .dayNumber) ∧
      convert ofEvents.records "Event" (.integer 106751991168) .int64 .document =
        .ok (.int64 106751991168) := by
  have hfar : FarDay (.integer 106751991168) := ⟨106751991168, rfl, by decide⟩
  refine ⟨ofJson_breakdown_iff.mpr ⟨rfl, ?_⟩, valueFor_breakdown_iff.mpr ⟨rfl, ?_⟩, ?_⟩
  · refine ⟨_, by with_unfolding_all rfl, [], ⟨"Event", _, .integer 106751991168⟩, [], rfl, ?_⟩
    exact ⟨List.forall_mem_nil _, .date hfar⟩
  · have hoffered : offered "Event" (.integer 106751991168) [.date, .int64] =
        [] ++ .date :: [.int64] := rfl
    exact ⟨_, _, rfl, rfl, .member hoffered (List.forall_mem_nil _) (.date hfar)⟩
  · exact Reads.scalar rfl Json.noConfusion rfl .document

end Model

end RecordModel
