/-
**Records that are written alike.**

A record is read from what is written for it by looking at members by their keys and at items in
their order.  So two values of one shape are read alike: both fail, or both give records with the
same declaration.  The defaults are kept as they are written, and are related as the values are.
Neither the position of a record nor the place of a field has a part in this, since they stand only
in errors.

The same holds for the list of all records, which can also be written in another order.  It is read
when each of its records is and no two of them have one name.

Main definitions:

* `Parallel` — two readings fail, or give related things;
* `Document.RecordsAlike` — records with one declaration and related defaults.

Main results:

* `Document.typeOf_parallel`, `Document.recordOf_parallel` — types and records of one shape are read
  alike;
* `Document.recordsOf_eq_ok_iff` — when a list of records is read;
* `Document.recordsOf_parallel` — **records that are written alike and in another order are read
  alike and in that order**.
-/

import RecordModel.Proofs.OnDemand
import RecordModel.Proofs.ReorderedJson

set_option relaxedAutoImplicit false
set_option autoImplicit false

namespace RecordModel

/-! ### Readings side by side -/

/-- Both readings fail, or both succeed with related values. -/
inductive Parallel {ε α β : Type} (S : α → β → Prop) : Except ε α → Except ε β → Prop
  | read {a : α} {b : β} : S a b → Parallel S (.ok a) (.ok b)
  | failed (e e' : ε) : Parallel S (.error e) (.error e')

namespace Parallel

variable {ε α β γ δ : Type} {S : α → β → Prop} {T : γ → δ → Prop} {x : Except ε α} {y : Except ε β}

theorem bind (h : Parallel S x y) {f : α → Except ε γ} {g : β → Except ε δ}
    (hfg : ∀ a b, S a b → Parallel T (f a) (g b)) : Parallel T (x >>= f) (y >>= g) := by
  cases h with
  | read hab => exact hfg _ _ hab
  | failed e e' => exact .failed e e'

theorem map (h : Parallel S x y) {f : α → γ} {g : β → δ} (hfg : ∀ a b, S a b → T (f a) (g b)) :
    Parallel T (f <$> x) (g <$> y) := by
  cases h with
  | read hab => exact .read (hfg _ _ hab)
  | failed e e' => exact .failed e e'

/-- Readings that are parallel are so when their results have to meet conditions that agree. -/
theorem restrict (h : Parallel S x y) {x' : Except ε α} {y' : Except ε β} {P : α → Prop}
    {Q : β → Prop} (hx : ∀ a, x' = .ok a ↔ x = .ok a ∧ P a)
    (hy : ∀ b, y' = .ok b ↔ y = .ok b ∧ Q b) (hPQ : ∀ a b, S a b → (P a ↔ Q b)) :
    Parallel S x' y' := by
  cases hx' : x' with
  | ok a =>
      obtain ⟨rfl, hP⟩ := (hx a).mp hx'
      cases h with
      | @read _ b hab =>
          rw [(hy b).mpr ⟨rfl, (hPQ a b hab).mp hP⟩]
          exact .read hab
  | error e =>
      cases hy' : y' with
      | error e' => exact .failed e e'
      | ok b =>
          obtain ⟨rfl, hQ⟩ := (hy b).mp hy'
          cases h with
          | @read a _ hab =>
              have hok := (hx a).mpr ⟨rfl, (hPQ a b hab).mpr hQ⟩
              cases hok.symm.trans hx'

theorem mapM {f : γ → Except ε α} {g : δ → Except ε β} {cs : List γ} {ds : List δ}
    (h : List.Forall₂ (fun c d => Parallel S (f c) (g d)) cs ds) :
    Parallel (List.Forall₂ S) (cs.mapM f) (ds.mapM g) := by
  induction h with
  | nil => exact .read .nil
  | cons hcd _ ih =>
      rw [List.mapM_cons, List.mapM_cons]
      exact hcd.bind fun a b hab => ih.map fun _ _ hrest => .cons hab hrest

/-- They are so too when one of the lists is in another order, in which its results come then. -/
theorem mapM_perm {f : γ → Except ε α} {g : δ → Except ε β} {cs mid : List γ} {ds : List δ}
    (hperm : cs.Perm mid) (h : List.Forall₂ (fun c d => Parallel S (f c) (g d)) mid ds) :
    Parallel (fun as bs => ∃ as', as.Perm as' ∧ List.Forall₂ S as' bs) (cs.mapM f) (ds.mapM g) := by
  have hmid := mapM h
  cases hcs : cs.mapM f with
  | ok as =>
      obtain ⟨as', has', has⟩ := Conversion.exists_mapM_of_perm hperm hcs
      rw [has'] at hmid
      generalize ds.mapM g = y at hmid ⊢
      cases hmid with
      | read hbs => exact .read ⟨as', has, hbs⟩
  | error e =>
      cases hds : ds.mapM g with
      | error e' => exact .failed e e'
      | ok bs =>
          rw [hds] at hmid
          generalize hmid' : mid.mapM f = x at hmid
          cases hmid with
          | read =>
              obtain ⟨as, has, -⟩ := Conversion.exists_mapM_of_perm hperm.symm hmid'
              cases has.symm.trans hcs

end Parallel

namespace Document

/-! ### Written records that are alike -/

/-- The fields have one declaration, and their defaults are related. -/
structure FieldsAlike (R : Json → Json → Prop) (f f' : WrittenField) : Prop where
  declaration : f.declaration = f'.declaration
  default : Option.Rel R f.default f'.default

theorem forall₂_fieldsAlike_iff {R : Json → Json → Prop} {fs fs' : List WrittenField} :
    List.Forall₂ (FieldsAlike R) fs fs' ↔ fs.map (·.declaration) = fs'.map (·.declaration) ∧
      List.Forall₂ (Option.Rel R) (fs.map (·.default)) (fs'.map (·.default)) := by
  rw [← List.forall₂_eq_eq_eq, List.forall₂_map_left_iff, List.forall₂_map_right_iff,
    List.forall₂_map_left_iff, List.forall₂_map_right_iff, ← forall₂_and_iff]
  exact ⟨fun h => h.imp fun _ _ hf => ⟨hf.1, hf.2⟩, fun h => h.imp fun _ _ hf => ⟨hf.1, hf.2⟩⟩

/-- The records have one declaration, and the defaults of their fields are related. -/
structure RecordsAlike (R : Json → Json → Prop) (r r' : WrittenRecord) : Prop where
  declaration : r.declaration = r'.declaration
  defaults : List.Forall₂ (Option.Rel R) r.defaults r'.defaults

/-! ### Members and types side by side -/

section

variable {R : Json → Json → Prop} (hR : ∀ {j j' : Json}, R j j' → Json.Shaped R j j')

include hR

section

variable {ms ms' : List (String × Json)}
  (hms : ∀ k, Option.Rel R (Keyed.get? k ms) (Keyed.get? k ms')) (key : String) (p p' : Place)

include hms

theorem requiredString_parallel :
    Parallel (· = ·) (requiredString ms key p) (requiredString ms' key p') := by
  have hvalue := hms key
  rw [requiredString, requiredString]
  generalize Keyed.get? key ms = value at hvalue
  generalize Keyed.get? key ms' = value' at hvalue
  cases hvalue with
  | none => exact .failed _ _
  | some hj =>
      cases hR hj with
      | string s =>
          dsimp only
          split
          · exact .failed _ _
          · exact .read rfl
      | _ => exact .failed _ _

theorem optionalString_parallel :
    Parallel (· = ·) (optionalString ms key p) (optionalString ms' key p') := by
  have hvalue := hms key
  rw [optionalString, optionalString]
  generalize Keyed.get? key ms = value at hvalue
  generalize Keyed.get? key ms' = value' at hvalue
  cases hvalue with
  | none => exact .read rfl
  | some hj =>
      cases hR hj with
      | null => exact .read rfl
      | string s => exact .read rfl
      | _ => exact .failed _ _

theorem optionalWord_parallel :
    Parallel (· = ·) (optionalWord ms key p) (optionalWord ms' key p') := by
  have hvalue := hms key
  rw [optionalWord, optionalWord]
  generalize Keyed.get? key ms = value at hvalue
  generalize Keyed.get? key ms' = value' at hvalue
  cases hvalue with
  | none => exact .read rfl
  | some hj =>
      cases hR hj with
      | null => exact .read rfl
      | integer n =>
          have hnumber : (Json.integer n).isNumber = true := rfl
          simp only [hnumber, if_true]
          cases (Json.integer n).toWord32? with
          | none => exact .failed _ _
          | some n => exact .read rfl
      | _ => exact .failed _ _

omit hms in
theorem stringsOf?_eq {js js' : List Json} (h : List.Forall₂ R js js') :
    stringsOf? js = stringsOf? js' := by
  induction h with
  | nil => rfl
  | cons hj _ ih =>
      cases hR hj with
      | string s => rw [stringsOf?, stringsOf?, ih]
      | _ => rfl

theorem stringList_parallel :
    Parallel (· = ·) (stringList ms key p) (stringList ms' key p') := by
  have hvalue := hms key
  rw [stringList, stringList]
  generalize Keyed.get? key ms = value at hvalue
  generalize Keyed.get? key ms' = value' at hvalue
  cases hvalue with
  | none => exact .read rfl
  | some hj =>
      cases hR hj with
      | null => exact .read rfl
      | array hitems =>
          dsimp only
          rw [stringsOf?_eq hR hitems]
          cases stringsOf? _ with
          | none => exact .failed _ _
          | some texts => exact .read rfl
      | _ => exact .failed _ _

theorem enumOf_parallel {name name' : Json} (hname : R name name') :
    Parallel (· = ·) (enumOf name ms p) (enumOf name' ms' p') := by
  cases hR hname with
  | string s =>
      rw [enumOf, enumOf]
      refine (stringList_parallel hR hms "symbols" p p').bind ?_
      rintro symbols _ rfl
      refine (optionalString_parallel hR hms "default" p p').map ?_
      rintro default _ rfl
      rfl
  | _ => exact .failed _ _

end

omit hR in
/-- Objects with the same keys have one member each, or neither has. -/
theorem single_cases {ms ms' : List (String × Json)} (hkeys : (Keyed.keys ms).Perm (Keyed.keys ms'))
    (hms : ∀ k, Option.Rel R (Keyed.get? k ms) (Keyed.get? k ms')) :
    (∃ k j j', ms = [(k, j)] ∧ ms' = [(k, j')] ∧ R j j') ∨
      (∀ m, ms ≠ [m]) ∧ ∀ m, ms' ≠ [m] := by
  have hlength : ms.length = ms'.length := by simpa [Keyed.keys] using hkeys.length_eq
  by_cases hone : ms.length = 1
  · obtain ⟨⟨k, j⟩, rfl⟩ := List.length_eq_one_iff.mp hone
    obtain ⟨⟨k', j'⟩, rfl⟩ := List.length_eq_one_iff.mp (hlength.symm.trans hone)
    obtain rfl : k = k' := by simpa [Keyed.keys] using hkeys
    have hvalue := hms k
    rw [Keyed.get?_cons, if_pos rfl, Keyed.get?_cons, if_pos rfl, Option.rel_some_some] at hvalue
    exact .inl ⟨k, j, j', rfl, rfl, hvalue⟩
  · refine .inr ⟨?_, ?_⟩
    · rintro m rfl
      exact hone rfl
    · rintro m rfl
      exact hone hlength

omit hR in
/-- An object that names no enumeration and has not one member is no type. -/
theorem typeOf_object_of_ne {ms : List (String × Json)} (h : ∀ m, ms ≠ [m]) (p : Place) :
    typeOf p (.object ms) = match Keyed.get? "enum" ms with
      | some name => enumOf name ms p
      | none => fail p .compositeKeys := by
  rw [typeOf.eq_def]
  dsimp only
  cases Keyed.get? "enum" ms with
  | some name => rfl
  | none =>
      dsimp only
      split
      · exact absurd rfl (h _)
      · rfl

omit hR in
theorem typesOf_parallel {js js' : List Json} {p p' : Place}
    (h : List.Forall₂ (fun j j' => Parallel (· = ·) (typeOf p j) (typeOf p' j')) js js') :
    Parallel (· = ·) (typesOf p js) (typesOf p' js') := by
  induction h with
  | nil => exact .read rfl
  | cons hj _ ih =>
      rw [typesOf, typesOf]
      refine hj.bind ?_
      rintro t _ rfl
      refine ih.map ?_
      rintro ts _ rfl
      rfl

/-- Objects with one member are read as types alike when their values are. -/
theorem typeOf_single_parallel {k : String} {j j' : Json} {p p' : Place} (hj : R j j')
    (hinner : Parallel (· = ·) (typeOf p j) (typeOf p' j'))
    (hitems : ∀ js js', j = .array js → List.Forall₂ R js js' →
      Parallel (· = ·) (typesOf p js) (typesOf p' js')) :
    Parallel (· = ·) (typeOf p (.object [(k, j)])) (typeOf p' (.object [(k, j')])) := by
  have hmap (f : DeclaredType → DeclaredType) :
      Parallel (· = ·) (f <$> typeOf p j) (f <$> typeOf p' j') :=
    hinner.map fun _ _ he => congrArg f he
  have hms : ∀ key, Option.Rel R (Keyed.get? key [(k, j)]) (Keyed.get? key [(k, j')]) :=
    Keyed.rel_get?_of_forall₂ (.cons ⟨rfl, hj⟩ .nil)
  rw [typeOf.eq_def, typeOf.eq_def]
  dsimp only
  rw [Keyed.get?_cons, Keyed.get?_cons]
  by_cases henum : k = "enum"
  · rw [if_pos henum, if_pos henum]
    exact enumOf_parallel hR hms p p' hj
  rw [if_neg henum, if_neg henum]
  dsimp only [Keyed.get?_nil]
  by_cases harray : k = "array"
  · rw [if_pos harray, if_pos harray]
    exact hmap .list
  rw [if_neg harray, if_neg harray]
  by_cases htuple : k = "tuple"
  · rw [if_pos htuple, if_pos htuple]
    exact hmap .tuple
  rw [if_neg htuple, if_neg htuple]
  by_cases hdict : k = "map"
  · rw [if_pos hdict, if_pos hdict]
    exact hmap .dict
  rw [if_neg hdict, if_neg hdict]
  by_cases hoptional : k = "optional"
  · rw [if_pos hoptional, if_pos hoptional]
    exact hmap .optional
  rw [if_neg hoptional, if_neg hoptional]
  by_cases hunion : k = "union"
  · rw [if_pos hunion, if_pos hunion]
    cases hR hj with
    | array hjs => exact (hitems _ _ rfl hjs).map fun _ _ he => congrArg DeclaredType.union he
    | _ => exact .failed _ _
  rw [if_neg hunion, if_neg hunion]
  exact .failed _ _

/-- The type that is written does not depend on the order of members, nor on the place. -/
theorem typeOf_parallel {j j' : Json} (h : R j j') (p p' : Place) :
    Parallel (· = ·) (typeOf p j) (typeOf p' j') := by
  induction hn : sizeOf j using Nat.strongRecOn generalizing j j' with
  | _ n ih =>
      subst hn
      cases hR h with
      | string s =>
          rw [typeOf, typeOf]
          split
          · exact .failed _ _
          · exact .read rfl
      | @object ms ms' hkeys hms =>
          rcases single_cases hkeys hms with ⟨k, j, j', rfl, rfl, hj⟩ | ⟨hne, hne'⟩
          · have hlt : sizeOf j < sizeOf (Json.object [(k, j)]) :=
              Json.sizeOf_lt_object (m := (k, j)) (List.mem_singleton_self _)
            refine typeOf_single_parallel hR hj (ih _ hlt hj rfl) ?_
            rintro js js' rfl hjs
            refine typesOf_parallel (forall₂_imp_of_mem hjs fun i hi i' _ hi' => ?_)
            exact ih _ ((Json.sizeOf_lt_array hi).trans hlt) hi' rfl
          · rw [typeOf_object_of_ne hne, typeOf_object_of_ne hne']
            have hvalue := hms "enum"
            generalize Keyed.get? "enum" ms = value at hvalue
            generalize Keyed.get? "enum" ms' = value' at hvalue
            cases hvalue with
            | none => exact .failed _ _
            | some hname => exact enumOf_parallel hR hms p p' hname
      | _ => exact .failed _ _

/-! ### Fields and records side by side -/

theorem fieldOf_parallel {j j' : Json} (h : R j j') (record record' : String) (i i' : Nat) :
    Parallel (FieldsAlike R) (fieldOf record i j) (fieldOf record' i' j') := by
  cases hR h with
  | @object ms ms' _ hms =>
      rw [fieldOf, fieldOf]
      refine (requiredString_parallel hR hms "name" _ _).bind ?_
      rintro name _ rfl
      have hvalue := hms "type"
      dsimp only
      generalize Keyed.get? "type" ms = value at hvalue
      generalize Keyed.get? "type" ms' = value' at hvalue
      cases hvalue with
      | none => exact .failed _ _
      | some htype =>
          refine (typeOf_parallel hR htype _ _).bind ?_
          rintro type _ rfl
          refine (optionalWord_parallel hR hms "precision" _ _).bind ?_
          rintro precision _ rfl
          refine (optionalWord_parallel hR hms "scale" _ _).bind ?_
          rintro scale _ rfl
          refine (optionalWord_parallel hR hms "size" _ _).bind ?_
          rintro size _ rfl
          refine (optionalString_parallel hR hms "fixed_name" _ _).bind ?_
          rintro fixedName _ rfl
          refine (optionalString_parallel hR hms "doc" _ _).bind ?_
          rintro doc _ rfl
          refine (stringList_parallel hR hms "aliases" _ _).bind ?_
          rintro aliases _ rfl
          exact .read ⟨rfl, hms "default"⟩
  | _ => exact .failed _ _

theorem fieldsOf_parallel {js js' : List Json} (h : List.Forall₂ R js js')
    (record record' : String) (i i' : Nat) :
    Parallel (List.Forall₂ (FieldsAlike R)) (fieldsOf record i js) (fieldsOf record' i' js') := by
  induction h generalizing i i' with
  | nil => exact .read .nil
  | cons hj _ ih =>
      rw [fieldsOf, fieldsOf]
      refine (fieldOf_parallel hR hj record record' i i').bind fun f f' hf => ?_
      refine (ih (i + 1) (i' + 1)).map fun fs fs' hfs => ?_
      exact .cons hf hfs

/-- **The record that is written does not depend on the order of members, nor on the position.** -/
theorem recordOf_parallel {j j' : Json} (h : R j j') (i i' : Nat) :
    Parallel (RecordsAlike R) (recordOf i j) (recordOf i' j') := by
  cases hR h with
  | @object ms ms' _ hms =>
      rw [recordOf, recordOf]
      refine (requiredString_parallel hR hms "name" _ _).bind ?_
      rintro name _ rfl
      have hvalue := hms "fields"
      dsimp only
      generalize Keyed.get? "fields" ms = value at hvalue
      generalize Keyed.get? "fields" ms' = value' at hvalue
      cases hvalue with
      | none => exact .failed _ _
      | some hfields =>
          cases hR hfields with
          | array hitems =>
              refine (optionalString_parallel hR hms "namespace" _ _).bind ?_
              rintro space _ rfl
              refine (optionalString_parallel hR hms "doc" _ _).bind ?_
              rintro doc _ rfl
              refine (stringList_parallel hR hms "aliases" _ _).bind ?_
              rintro aliases _ rfl
              refine (fieldsOf_parallel hR hitems name name 0 0).map fun fs fs' hfs => ?_
              obtain ⟨hdeclarations, hdefaults⟩ := forall₂_fieldsAlike_iff.mp hfs
              exact ⟨by rw [hdeclarations], hdefaults⟩
          | _ => exact .failed _ _
  | _ => exact .failed _ _

end

/-! ### The records of a document -/

/-- The position of a record stands only in errors. -/
theorem recordOf_eq_ok_iff {i i' : Nat} {j : Json} {r : WrittenRecord} :
    recordOf i j = .ok r ↔ recordOf i' j = .ok r := by
  have hshaped {j j' : Json} (h : j = j') : Json.Shaped (· = ·) j j' := h ▸ .refl (fun _ => rfl) j
  have hparallel := recordOf_parallel hshaped (rfl : j = j) i i'
  have heq {r r' : WrittenRecord} (h : RecordsAlike (· = ·) r r') : r = r' := by
    obtain ⟨hdeclaration, hdefaults⟩ := h
    have hdefaults : r.defaults = r'.defaults := by
      rw [← List.forall₂_eq_eq_eq]
      refine hdefaults.imp fun d d' hd => ?_
      cases hd with
      | none => rfl
      | some hj => exact congrArg some hj
    cases r
    cases hdeclaration
    cases hdefaults
    rfl
  generalize recordOf i j = x at hparallel
  generalize recordOf i' j = y at hparallel
  cases hparallel with
  | read hr => rw [heq hr]
  | failed e e' => exact ⟨nofun, nofun⟩

/-- **A list of records is read when each of them is and their names are new and distinct.** -/
theorem recordsOf_eq_ok_iff {seen : List String} {i : Nat} {items : List Json}
    {rs : List WrittenRecord} :
    recordsOf seen i items = .ok rs ↔ items.mapM (recordOf 0) = .ok rs ∧
      (rs.map (·.declaration.name)).Nodup ∧ ∀ r ∈ rs, r.declaration.name ∉ seen := by
  rw [Conversion.mapM_eq_ok_iff]
  constructor
  · intro h
    refine ⟨?_, recordsOf_nodup h⟩
    induction items generalizing seen i rs with
    | nil =>
        cases h
        exact .nil
    | cons j rest ih =>
        rw [recordsOf] at h
        obtain ⟨r, hr, h⟩ := exists_of_bind_eq_ok h
        split at h
        · cases h
        · obtain ⟨others, hothers, h⟩ := exists_of_bind_eq_ok h
          cases h
          exact .cons (recordOf_eq_ok_iff.mp hr) (ih hothers)
  · rintro ⟨hrecords, hnodup, hnew⟩
    induction hrecords generalizing seen i with
    | nil => rfl
    | @cons j r rest others hr _ ih =>
        rw [List.map_cons, List.nodup_cons] at hnodup
        obtain ⟨hfresh, hnodup⟩ := hnodup
        obtain ⟨hseen, hnew⟩ := List.forall_mem_cons.mp hnew
        have hothers : recordsOf (r.declaration.name :: seen) (i + 1) rest = .ok others := by
          refine ih hnodup fun r' hr' hmem => ?_
          rcases List.mem_cons.mp hmem with hname | hmem
          · exact hfresh (List.mem_map.mpr ⟨r', hr', hname⟩)
          · exact hnew r' hr' hmem
        rw [recordsOf, recordOf_eq_ok_iff.mp hr]
        change (if r.declaration.name ∈ seen then _ else _) = _
        rw [if_neg hseen, hothers]
        rfl

/-- **Records that are written alike and in another order are read alike and in that order.** -/
theorem recordsOf_parallel {R : Json → Json → Prop}
    (hR : ∀ {j j' : Json}, R j j' → Json.Shaped R j j') {items mid items' : List Json}
    (hperm : items.Perm mid) (h : List.Forall₂ R mid items') :
    Parallel (fun rs rs' => ∃ mid, rs.Perm mid ∧ List.Forall₂ (RecordsAlike R) mid rs')
      (recordsOf [] 0 items) (recordsOf [] 0 items') := by
  have hread := Parallel.mapM_perm hperm (h.imp fun _ _ hj => recordOf_parallel hR hj 0 0)
  have hiff (items : List Json) (rs : List WrittenRecord) : recordsOf [] 0 items = .ok rs ↔
      items.mapM (recordOf 0) = .ok rs ∧ (rs.map (·.declaration.name)).Nodup := by
    simp [recordsOf_eq_ok_iff]
  refine hread.restrict (hiff items) (hiff items') ?_
  rintro rs rs' ⟨mid, hperm, hmid⟩
  have hnames : mid.map (·.declaration.name) = rs'.map (·.declaration.name) := by
    rw [← List.forall₂_eq_eq_eq, List.forall₂_map_left_iff, List.forall₂_map_right_iff]
    exact hmid.imp fun _ _ hr => congrArg DeclaredRecord.name hr.declaration
  rw [← hnames]
  exact (hperm.map _).nodup_iff

end Document

end RecordModel
