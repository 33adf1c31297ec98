/-
**Values that are alike.**

The order in which the members of an object are written has no meaning.  Two JSON values are alike
when they are equal but for that order, at any depth.  How their binary numbers are compared is left
open, since they may be compared as they are or as numbers, in which the zeros are equal.

A way to compare values that looks through arrays and objects is called a comparison here.  Equality
is one, and so is being alike.

Main definitions:

* `Json.Alike` — equality but for the order of members;
* `Json.Comparison` — what equality and being alike have in common;
* `Json.attributes` — the members of an object some of whose values may be absent.

Main results:

* `Json.alike_array_iff`, `Json.alike_object_iff` — what is alike to an array or an object;
* `Json.comparison_eq`, `Json.comparison_alike` — both are comparisons;
* `Json.Comparison.object_attributes_iff` — objects with the same possible members are compared
  member by member.
-/

import RecordModel.Json.Basic
import RecordModel.Proofs.Outcomes

set_option relaxedAutoImplicit false
set_option autoImplicit false

namespace RecordModel

/-! ### Entries that correspond -/

theorem forall₂_iff_getElem? {α β : Type} {R : α → β → Prop} {as : List α} {bs : List β} :
    List.Forall₂ R as bs ↔ as.length = bs.length ∧
      ∀ (i : Nat) (a : α) (b : β), as[i]? = some a → bs[i]? = some b → R a b := by
  rw [List.forall₂_iff_get]
  refine and_congr_right fun _ => ⟨fun h i a b ha hb => ?_, fun h i ha hb => ?_⟩
  · obtain ⟨hlt, rfl⟩ := List.getElem?_eq_some_iff.mp ha
    obtain ⟨hlt', rfl⟩ := List.getElem?_eq_some_iff.mp hb
    exact h i hlt hlt'
  · exact h i _ _ (List.getElem?_eq_getElem ha) (List.getElem?_eq_getElem hb)

theorem forall₂_and_iff {α β : Type} {R S : α → β → Prop} {as : List α} {bs : List β} :
    List.Forall₂ (fun a b => R a b ∧ S a b) as bs ↔ List.Forall₂ R as bs ∧ List.Forall₂ S as bs := by
  constructor
  · intro h
    exact ⟨h.imp fun _ _ h => h.1, h.imp fun _ _ h => h.2⟩
  · rintro ⟨hR, hS⟩
    induction hR with
    | nil => exact .nil
    | cons hab _ ih =>
        cases hS with
        | cons hab' hS => exact .cons ⟨hab, hab'⟩ (ih hS)

namespace Keyed

variable {α : Type} {R : α → α → Prop} {es es' : List (String × α)}

/-- The entries have one key, and values that are related. -/
def EntryRel (R : α → α → Prop) (e e' : String × α) : Prop := e.1 = e'.1 ∧ R e.2 e'.2

theorem keys_eq_of_forall₂ (h : List.Forall₂ (EntryRel R) es es') : keys es = keys es' := by
  induction h with
  | nil => rfl
  | cons he _ ih => exact congrArg₂ List.cons he.1 ih

/-- Entries that correspond have related values under every key. -/
theorem rel_get?_of_forall₂ (h : List.Forall₂ (EntryRel R) es es') (k : String) :
    Option.Rel R (get? k es) (get? k es') := by
  induction h with
  | nil => exact .none
  | @cons e e' _ _ he _ ih =>
      obtain ⟨key, v⟩ := e
      obtain ⟨key', v'⟩ := e'
      obtain ⟨rfl, hv⟩ : key = key' ∧ R v v' := he
      rw [get?_cons, get?_cons]
      split
      · exact .some hv
      · exact ih

/-- Under a key there is a value in both lists or in neither, when the keys are the same. -/
theorem rel_get?_of_perm (hkeys : (keys es).Perm (keys es')) {k : String}
    (h : ∀ v v', get? k es = some v → get? k es' = some v' → R v v') :
    Option.Rel R (get? k es) (get? k es') := by
  cases hv : get? k es with
  | none =>
      have hnot : k ∉ keys es' := fun hk => (get?_eq_none_iff k es).mp hv (hkeys.mem_iff.mpr hk)
      rw [(get?_eq_none_iff k es').mpr hnot]
      exact .none
  | some v =>
      cases hv' : get? k es' with
      | none =>
          have hnot := (get?_eq_none_iff k es').mp hv'
          have hnone := (get?_eq_none_iff k es).mpr fun hk => hnot (hkeys.mem_iff.mp hk)
          exact absurd (hv.symm.trans hnone) nofun
      | some v' => exact .some (h v v' hv hv')

end Keyed

namespace Json

/-! ### Alike -/

/-- The values are equal but for the order of the members of objects, and binary numbers in them
are the same. -/
inductive Alike (same : Binary64 → Binary64 → Prop) : Json → Json → Prop
  | null : Alike same .null .null
  | boolean (b : Bool) : Alike same (.boolean b) (.boolean b)
  | integer (n : Int) : Alike same (.integer n) (.integer n)
  | float {x y : Binary64} : same x y → Alike same (.float x) (.float y)
  | string (s : String) : Alike same (.string s) (.string s)
  | array {js js' : List Json} : js.length = js'.length →
      (∀ (i : Nat) (j j' : Json), js[i]? = some j → js'[i]? = some j' → Alike same j j') →
      Alike same (.array js) (.array js')
  | object {ms ms' : List (String × Json)} : (Keyed.keys ms).Perm (Keyed.keys ms') →
      (∀ (k : String) (j j' : Json), Keyed.get? k ms = some j → Keyed.get? k ms' = some j' →
        Alike same j j') →
      Alike same (.object ms) (.object ms')

variable {same : Binary64 → Binary64 → Prop}

/-- What is alike to an array is an array with items that are alike one by one. -/
theorem alike_array_iff {js : List Json} {j : Json} :
    Alike same (.array js) j ↔ ∃ js', j = .array js' ∧ List.Forall₂ (Alike same) js js' := by
  constructor
  · intro h
    cases h with
    | array hlength hitems => exact ⟨_, rfl, forall₂_iff_getElem?.mpr ⟨hlength, hitems⟩⟩
  · rintro ⟨js', rfl, h⟩
    obtain ⟨hlength, hitems⟩ := forall₂_iff_getElem?.mp h
    exact .array hlength hitems

/-- What is alike to an object is an object with the same keys and with values that are alike. -/
theorem alike_object_iff {ms : List (String × Json)} {j : Json} :
    Alike same (.object ms) j ↔ ∃ ms', j = .object ms' ∧ (Keyed.keys ms).Perm (Keyed.keys ms') ∧
      ∀ k, Option.Rel (Alike same) (Keyed.get? k ms) (Keyed.get? k ms') := by
  constructor
  · intro h
    cases h with
    | object hkeys hvalues =>
        exact ⟨_, rfl, hkeys, fun k => Keyed.rel_get?_of_perm hkeys (hvalues k)⟩
  · rintro ⟨ms', rfl, hkeys, hvalues⟩
    refine .object hkeys fun k j j' hj hj' => ?_
    have hrel := hvalues k
    rwa [hj, hj', Option.rel_some_some] at hrel

/-! ### Comparisons -/

/-- A way to compare values that takes texts and whole numbers as they are and looks through arrays
and objects, in which it may ignore the order of the members. -/
structure Comparison (R : Json → Json → Prop) : Prop where
  integer {m n : Int} : R (.integer m) (.integer n) ↔ m = n
  string {s : String} {j : Json} : R (.string s) j ↔ j = .string s
  string_right {s : String} {j : Json} : R j (.string s) ↔ j = .string s
  array {js : List Json} {j : Json} :
    R (.array js) j ↔ ∃ js', j = .array js' ∧ List.Forall₂ R js js'
  /-- Objects that are compared have related values under every key. -/
  get? {ms : List (String × Json)} {j : Json} : R (.object ms) j →
    ∃ ms', j = .object ms' ∧ ∀ k, Option.Rel R (Keyed.get? k ms) (Keyed.get? k ms')
  /-- Objects are compared when their members correspond. -/
  object {ms ms' : List (String × Json)} :
    List.Forall₂ (Keyed.EntryRel R) ms ms' → R (.object ms) (.object ms')

/-- Equality is a comparison. -/
theorem comparison_eq : Comparison (· = ·) where
  integer := by simp
  string := eq_comm
  string_right := Iff.rfl
  array := by simp [List.forall₂_eq_eq_eq, eq_comm]
  get? := by
    rintro ms _ rfl
    refine ⟨ms, rfl, fun k => ?_⟩
    cases Keyed.get? k ms with
    | none => exact .none
    | some j => exact .some rfl
  object h := by
    have hrel : Keyed.EntryRel (· = ·) = (· = · : String × Json → String × Json → Prop) := by
      funext e e'
      simp [Keyed.EntryRel, Prod.ext_iff]
    rw [hrel, List.forall₂_eq_eq_eq] at h
    rw [h]

/-- Being alike is a comparison. -/
theorem comparison_alike (same : Binary64 → Binary64 → Prop) : Comparison (Alike same) where
  integer := by
    refine ⟨fun h => ?_, fun h => h ▸ .integer _⟩
    cases h
    rfl
  string := by
    refine ⟨fun h => ?_, ?_⟩
    · cases h
      rfl
    · rintro rfl
      exact .string _
  string_right := by
    refine ⟨fun h => ?_, ?_⟩
    · cases h
      rfl
    · rintro rfl
      exact .string _
  array := alike_array_iff
  get? h := by
    obtain ⟨ms', rfl, -, hvalues⟩ := alike_object_iff.mp h
    exact ⟨ms', rfl, hvalues⟩
  object h := alike_object_iff.mpr
    ⟨_, rfl, Keyed.keys_eq_of_forall₂ h ▸ .refl _, Keyed.rel_get?_of_forall₂ h⟩

/-! ### Objects with members that may be absent -/

/-- The members whose values are there. -/
def attributes (es : List (String × Option Json)) : List (String × Json) :=
  es.filterMap fun e => e.2.map fun j => (e.1, j)

theorem keys_attributes_subset {k : String} {es : List (String × Option Json)}
    (h : k ∈ Keyed.keys (attributes es)) : k ∈ Keyed.keys es := by
  obtain ⟨e, he, rfl⟩ := List.mem_map.mp h
  obtain ⟨e', he', hj⟩ := List.mem_filterMap.mp he
  obtain ⟨j, -, rfl⟩ := Option.map_eq_some_iff.mp hj
  exact List.mem_map_of_mem he'

/-- Under every key there is the value that may be there. -/
theorem get?_attributes {es : List (String × Option Json)} (h : (Keyed.keys es).Nodup)
    {e : String × Option Json} (he : e ∈ es) : Keyed.get? e.1 (attributes es) = e.2 := by
  induction es with
  | nil => cases he
  | cons e' rest ih =>
      obtain ⟨k, value⟩ := e'
      rw [Keyed.keys_cons, List.nodup_cons] at h
      rcases List.mem_cons.mp he with rfl | hrest
      · cases value with
        | none => exact (Keyed.get?_eq_none_iff _ _).mpr fun hk => h.1 (keys_attributes_subset hk)
        | some j =>
            change Keyed.get? k ((k, j) :: attributes rest) = some j
            rw [Keyed.get?_cons, if_pos rfl]
      · have hne : k ≠ e.1 := fun hk => h.1 (hk ▸ List.mem_map_of_mem hrest)
        cases value with
        | none => exact ih h.2 hrest
        | some j =>
            change Keyed.get? e.1 ((k, j) :: attributes rest) = e.2
            rw [Keyed.get?_cons, if_neg hne, ih h.2 hrest]

namespace Comparison

variable {R : Json → Json → Prop} (hR : Comparison R)

include hR

theorem optional_string_iff {s t : Option String} :
    Option.Rel R (s.map .string) (t.map .string) ↔ s = t := by
  cases s <;> cases t <;> simp [hR.string, eq_comm]

theorem forall₂_string_iff {ss ts : List String} :
    List.Forall₂ R (ss.map .string) (ts.map .string) ↔ ss = ts := by
  rw [List.forall₂_map_left_iff, List.forall₂_map_right_iff, ← List.forall₂_eq_eq_eq]
  simp [hR.string, eq_comm]

/-- **Objects with the same possible members are compared member by member.** -/
theorem object_attributes_iff {es es' : List (String × Option Json)}
    (hkeys : Keyed.keys es = Keyed.keys es') (hnodup : (Keyed.keys es).Nodup) :
    R (.object (attributes es)) (.object (attributes es')) ↔
      List.Forall₂ (Keyed.EntryRel (Option.Rel R)) es es' := by
  constructor
  · intro h
    obtain ⟨_, hms, hvalues⟩ := hR.get? h
    cases hms
    refine forall₂_iff_getElem?.mpr ⟨by simpa [Keyed.keys] using congrArg List.length hkeys, ?_⟩
    intro i e e' he he'
    have hkey : e.1 = e'.1 := by
      have hplace := congrArg (·[i]?) hkeys
      simpa [Keyed.keys, he, he'] using hplace
    refine ⟨hkey, ?_⟩
    have hvalue := hvalues e.1
    rwa [get?_attributes hnodup (List.mem_of_getElem? he), hkey,
      get?_attributes (hkeys ▸ hnodup) (List.mem_of_getElem? he')] at hvalue
  · intro h
    refine hR.object ?_
    clear hkeys hnodup
    induction h with
    | nil => exact .nil
    | @cons e e' _ _ he _ ih =>
        obtain ⟨k, value⟩ := e
        obtain ⟨k', value'⟩ := e'
        obtain ⟨rfl, hvalue⟩ : k = k' ∧ Option.Rel R value value' := he
        cases hvalue with
        | none => exact ih
        | some hj => exact .cons ⟨rfl, hj⟩ ih

end Comparison

end Json

end RecordModel
