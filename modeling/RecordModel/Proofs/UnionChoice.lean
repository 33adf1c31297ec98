/-
**How a conversion chooses.**

A union takes the first of its members that does not refuse what is written, and its members may be
unions and optional types themselves.  Something that names no record is passed on through all of
them to the types that are no unions and no optional types, one after the other, as if these stood
side by side; an object that names a record is passed on by a union to the members alone that are
this record.  The words of a refusal depend on the way that was gone, so that they are left out of
what becomes of a conversion.

Main definitions:

* `Conversion.outcome` — what becomes of a conversion, without the words of a refusal;
* `Conversion.attempt` — the first of some types that does not refuse;
* `DeclaredType.alternatives` — the types that are no unions and no optional types;
* `Conversion.candidates` — the types that something written is passed on to.

Main results:

* `Conversion.outcome_convertUnion` — a union attempts its members, or those with the name;
* `Conversion.outcome_convert_null` — null is taken or refused, whatever the type;
* `Conversion.outcome_convert` — **anything else is attempted by the candidates of the type**.
-/

import RecordModel.Proofs.ConvertedShapes

set_option relaxedAutoImplicit false
set_option autoImplicit false

namespace RecordModel

/-! ### Alternatives of a declaration -/

namespace DeclaredType

/-- Whether the type is that of null. -/
def isNull : DeclaredType → Bool
  | .null => true
  | _ => false

/-- Whether the type is one of several alternatives: a union or an optional type. -/
def hasAlternatives : DeclaredType → Bool
  | .union _ => true
  | .optional _ => true
  | _ => false

mutual

/-- The alternatives of a type, in order: those of the members of a union, null and the others of an
optional type, and any other type by itself. -/
def alternatives : DeclaredType → List DeclaredType
  | .union members => allAlternatives members
  | .optional inner => .null :: inner.alternatives.filter fun t => !t.isNull
  | t => [t]

/-- The alternatives of some types, one after the other. -/
def allAlternatives : List DeclaredType → List DeclaredType
  | [] => []
  | t :: rest => t.alternatives ++ allAlternatives rest

end

theorem alternatives_union (ts : List DeclaredType) :
    alternatives (.union ts) = ts.flatMap alternatives := by
  rw [alternatives]
  induction ts with
  | nil => rw [allAlternatives, List.flatMap_nil]
  | cons t rest ih => rw [allAlternatives, List.flatMap_cons, ih]

theorem alternatives_optional (inner : DeclaredType) :
    alternatives (.optional inner) = .null :: inner.alternatives.filter fun t => !t.isNull := by
  rw [alternatives]

theorem alternatives_of_plain {t : DeclaredType} (h : t.hasAlternatives = false) :
    t.alternatives = [t] := by
  cases t with
  | union ts => cases h
  | optional inner => cases h
  | _ => rfl

/-- Induction over declared types by their alternatives. -/
theorem induction_members {P : DeclaredType → Prop}
    (union : ∀ ts, (∀ t ∈ ts, P t) → P (.union ts)) (optional : ∀ inner, P inner → P (.optional inner))
    (plain : ∀ t, t.hasAlternatives = false → P t) (t : DeclaredType) : P t := by
  induction hn : sizeOf t using Nat.strongRecOn generalizing t with
  | _ n ih =>
      subst hn
      cases t with
      | union ts =>
          refine union ts fun t ht => ih _ ?_ t rfl
          have hlt := List.sizeOf_lt_of_mem ht
          simp only [DeclaredType.union.sizeOf_spec]
          omega
      | optional inner => exact optional inner (ih _ (by simp) inner rfl)
      | _ => exact plain _ rfl

end DeclaredType

namespace Conversion

/-! ### What becomes of a conversion -/

/-- What becomes of a conversion: a value, a breakdown, or a refusal without its words. -/
def outcome {α : Type} : Except Failure α → Except (Option Breakdown) α
  | .ok a => .ok a
  | .error (.breakdown b) => .error (some b)
  | .error (.error _) => .error none

@[simp] theorem outcome_ok {α : Type} (a : α) : outcome (.ok a) = .ok a := rfl

theorem outcome_eq_ok_iff {α : Type} {x : Except Failure α} {a : α} :
    outcome x = .ok a ↔ x = .ok a := by
  cases x with
  | ok b => simp [outcome]
  | error failure => cases failure <;> simp [outcome]

theorem outcome_eq_breakdown_iff {α : Type} {x : Except Failure α} {b : Breakdown} :
    outcome x = .error (some b) ↔ x = .error (.breakdown b) := by
  cases x with
  | ok a => simp [outcome]
  | error failure => cases failure <;> simp [outcome]

/-- Computations with one outcome give computations with one outcome when they are continued
alike. -/
theorem outcome_bind_congr {α β : Type} {x y : Except Failure α} {f g : α → Except Failure β}
    (hxy : outcome x = outcome y) (hfg : ∀ a, outcome (f a) = outcome (g a)) :
    outcome (x >>= f) = outcome (y >>= g) := by
  cases x with
  | ok a =>
      cases outcome_eq_ok_iff.mp hxy.symm
      exact hfg a
  | error failure =>
      cases y with
      | ok b => exact absurd (outcome_eq_ok_iff.mp hxy) nofun
      | error failure' => cases failure <;> cases failure' <;> cases hxy <;> rfl

theorem outcome_map_congr {α β : Type} {x y : Except Failure α} (hxy : outcome x = outcome y)
    (f : α → β) : outcome (f <$> x) = outcome (f <$> y) := by
  rw [map_eq_pure_bind, map_eq_pure_bind]
  exact outcome_bind_congr hxy fun _ => rfl

/-! ### Attempts -/

/-- The first outcome, or the second one if the first is a refusal. -/
def orNext {α : Type} (x y : Except (Option Breakdown) α) : Except (Option Breakdown) α :=
  match x with
  | .error none => y
  | made => made

theorem orNext_refused {α : Type} (x : Except (Option Breakdown) α) :
    orNext x (.error none) = x := by
  unfold orNext
  split <;> rfl

theorem orNext_assoc {α : Type} (x y z : Except (Option Breakdown) α) :
    orNext (orNext x y) z = orNext x (orNext y z) := by
  match x with
  | .ok _ => rfl
  | .error (some _) => rfl
  | .error none => rfl

theorem orNext_self {α : Type} (x : Except (Option Breakdown) α) : orNext x x = x := by
  unfold orNext
  split <;> rfl

section

variable (records : List DeclaredRecord) (owner : String) (raw : Json) (place : Place)

/-- The outcome for the first of some types that does not refuse what is written. -/
def attempt (ts : List DeclaredType) : Except (Option Breakdown) Value :=
  ts.foldr (fun t rest => orNext (outcome (convert records owner raw t place)) rest) (.error none)

end

variable {records : List DeclaredRecord} {owner : String} {raw : Json} {place : Place}

@[simp] theorem attempt_nil : attempt records owner raw place [] = .error none := rfl

theorem attempt_cons (t : DeclaredType) (ts : List DeclaredType) :
    attempt records owner raw place (t :: ts) =
      orNext (outcome (convert records owner raw t place)) (attempt records owner raw place ts) :=
  rfl

theorem attempt_singleton (t : DeclaredType) :
    attempt records owner raw place [t] = outcome (convert records owner raw t place) :=
  orNext_refused _

theorem attempt_append (ts us : List DeclaredType) :
    attempt records owner raw place (ts ++ us) =
      orNext (attempt records owner raw place ts) (attempt records owner raw place us) := by
  induction ts with
  | nil => rfl
  | cons t ts ih => rw [List.cons_append, attempt_cons, attempt_cons, ih, orNext_assoc]

theorem attempt_flatMap {ts : List DeclaredType} {f : DeclaredType → List DeclaredType}
    (h : ∀ t ∈ ts, outcome (convert records owner raw t place) =
      attempt records owner raw place (f t)) :
    attempt records owner raw place ts = attempt records owner raw place (ts.flatMap f) := by
  induction ts with
  | nil => rfl
  | cons t ts ih =>
      rw [attempt_cons, List.flatMap_cons, attempt_append, h t (List.mem_cons_self ..),
        ih fun t' ht' => h t' (List.mem_cons_of_mem _ ht')]

/-- Types that refuse can be left out. -/
theorem attempt_filter {ts : List DeclaredType} {p : DeclaredType → Bool}
    (h : ∀ t ∈ ts, p t = false → outcome (convert records owner raw t place) = .error none) :
    attempt records owner raw place (ts.filter p) = attempt records owner raw place ts := by
  induction ts with
  | nil => rfl
  | cons t ts ih =>
      have ih := ih fun t' ht' => h t' (List.mem_cons_of_mem _ ht')
      cases ht : p t with
      | true => rw [List.filter_cons_of_pos ht, attempt_cons, attempt_cons, ih]
      | false =>
          rw [List.filter_cons_of_neg (by simp [ht]), attempt_cons, ih,
            h t (List.mem_cons_self ..) ht]
          rfl

theorem attempt_congr {ts us : List DeclaredType}
    (h : List.Forall₂ (fun t u => outcome (convert records owner raw t place) =
      outcome (convert records owner raw u place)) ts us) :
    attempt records owner raw place ts = attempt records owner raw place us := by
  induction h with
  | nil => rfl
  | cons h _ ih => rw [attempt_cons, attempt_cons, h, ih]

/-- Types that all have one outcome are attempted with it. -/
theorem attempt_of_forall {ts : List DeclaredType} (hne : ts ≠ [])
    {x : Except (Option Breakdown) Value}
    (h : ∀ t ∈ ts, outcome (convert records owner raw t place) = x) :
    attempt records owner raw place ts = x := by
  induction ts with
  | nil => exact absurd rfl hne
  | cons t ts ih =>
      obtain ⟨ht, hts⟩ := List.forall_mem_cons.mp h
      rw [attempt_cons, ht]
      by_cases hnil : ts = []
      · rw [hnil, attempt_nil, orNext_refused]
      · rw [ih hnil hts, orNext_self]

/-- Types that all have the same outcome are attempted with the same outcome, if there are any. -/
theorem attempt_eq_of_forall {ts us : List DeclaredType} (hempty : ts = [] ↔ us = [])
    (h : ∀ t ∈ ts, ∀ u ∈ us, outcome (convert records owner raw t place) =
      outcome (convert records owner raw u place)) :
    attempt records owner raw place ts = attempt records owner raw place us := by
  by_cases hnil : ts = []
  · rw [hnil, hempty.mp hnil]
  · have hnil' := mt hempty.mpr hnil
    obtain ⟨t, ht⟩ := List.exists_mem_of_ne_nil _ hnil
    obtain ⟨u, hu⟩ := List.exists_mem_of_ne_nil _ hnil'
    rw [attempt_of_forall hnil fun t' ht' => h t' ht' u hu,
      attempt_of_forall hnil' fun u' hu' => (h t ht u' hu').symm, h t ht u hu]

/-- **A union attempts its members**, and of something that names a record those that are this
record. -/
theorem outcome_convertUnion (ts : List DeclaredType) :
    outcome (convertUnion records owner raw ts place) =
      attempt records owner raw place
        (ts.filter fun t => ((tagOfValue? raw).map (isRecord owner t)).getD true) := by
  induction ts with
  | nil =>
      rw [convertUnion, List.filter_nil]
      rfl
  | cons t ts ih =>
      rw [convertUnion]
      cases ht : ((tagOfValue? raw).map (isRecord owner t)).getD true with
      | true =>
          rw [List.filter_cons_of_pos (by simpa using ht), attempt_cons, ← ih, if_pos rfl]
          split
          · rename_i v hv
            rw [hv]
            rfl
          · rename_i b hb
            rw [hb]
            rfl
          · rename_i e he
            rw [he]
            rfl
      | false =>
          rw [List.filter_cons_of_neg (by simp [ht]), ← ih]
          simp

/-! ### Null -/

/-- Null is refused by a type without alternatives that does not take it. -/
theorem outcome_convert_null_plain {t : DeclaredType} (ht : t.hasAlternatives = false)
    (hnull : t.takesNull = false) :
    outcome (convert records owner .null t place) = .error none := by
  cases t with
  | list items | tuple items =>
      rw [convert.eq_def]
      simp only [hnull]
      rw [convertArray.eq_def]
      rfl
  | dict values | record name | self =>
      rw [convert.eq_def]
      simp only [hnull]
      rfl
  | union members => cases ht
  | optional inner => cases ht
  | null => cases hnull
  | _ =>
      rw [convert_scalar records owner rfl fun _ => hnull]
      rfl

/-- **Null is null for the types that take it, and all others refuse it.** -/
theorem outcome_convert_null (t : DeclaredType) :
    outcome (convert records owner .null t place) =
      if t.takesNull then .ok .null else .error none := by
  cases hnull : t.takesNull with
  | true => rw [convert_null _ _ _ _ hnull, if_pos rfl, outcome_ok]
  | false =>
      rw [if_neg Bool.false_ne_true]
      induction t using DeclaredType.induction_members with
      | union ts ih =>
          have hmembers : ∀ t ∈ ts, t.takesNull = false := by
            rw [DeclaredType.takesNull_union, List.any_eq_false] at hnull
            simpa using hnull
          rw [convert.eq_def]
          simp only [hnull]
          rw [outcome_convertUnion]
          by_cases hnil : ts = []
          · rw [hnil]
            rfl
          · refine attempt_of_forall ?_ fun t ht => ?_
            · simpa [tagOfValue?] using hnil
            · have ht := (List.mem_filter.mp ht).1
              exact ih t ht (hmembers t ht)
      | optional inner => cases hnull
      | plain t ht => exact outcome_convert_null_plain ht hnull

/-! ### Anything else -/

theorem outcome_convert_of_isNull (hraw : raw ≠ .null) {t : DeclaredType}
    (ht : (!t.isNull) = false) : outcome (convert records owner raw t place) = .error none := by
  cases t with
  | null =>
      rw [convert_scalar records owner rfl fun h => absurd h hraw]
      rfl
  | _ => cases ht

end Conversion

/-- The types that an object which names a record is passed on to: of the members of a union those
that are this record. -/
def DeclaredType.tagged (owner tag : String) : DeclaredType → List DeclaredType
  | .optional inner => inner.tagged owner tag
  | .union ts => ts.filter fun t => Conversion.isRecord owner t tag
  | t => [t]

theorem DeclaredType.tagged_of_plain {t : DeclaredType} (h : t.hasAlternatives = false)
    (owner tag : String) : t.tagged owner tag = [t] := by
  cases t with
  | union ts => cases h
  | optional inner => cases h
  | _ => rfl

namespace Conversion

/-- The types that something written is passed on to. -/
def candidates (owner : String) (raw : Json) (t : DeclaredType) : List DeclaredType :=
  match tagOfValue? raw with
  | none => t.alternatives
  | some tag => t.tagged owner tag

variable {records : List DeclaredRecord} {owner : String} {raw : Json} {place : Place}

/-- **What is not null is attempted by the candidates of the type.** -/
theorem outcome_convert (hraw : raw ≠ .null) (t : DeclaredType) :
    outcome (convert records owner raw t place) =
      attempt records owner raw place (candidates owner raw t) := by
  unfold candidates
  induction t using DeclaredType.induction_members with
  | union ts ih =>
      rw [convert_union _ _ _ _ _ hraw, outcome_convertUnion]
      cases htag : tagOfValue? raw with
      | some tag => rfl
      | none =>
          rw [htag] at ih
          rw [DeclaredType.alternatives_union, ← attempt_flatMap ih]
          exact congrArg _ (List.filter_eq_self.mpr fun _ _ => rfl)
  | optional inner ih =>
      rw [convert_optional _ _ _ _ _ hraw, ih]
      cases htag : tagOfValue? raw with
      | some tag => rfl
      | none =>
          rw [DeclaredType.alternatives_optional, attempt_cons,
            outcome_convert_of_isNull hraw rfl, ← attempt_filter fun t _ =>
              outcome_convert_of_isNull hraw]
          rfl
  | plain t ht =>
      cases htag : tagOfValue? raw with
      | some tag =>
          dsimp only
          rw [DeclaredType.tagged_of_plain ht, attempt_singleton]
      | none =>
          dsimp only
          rw [DeclaredType.alternatives_of_plain ht, attempt_singleton]

end Conversion

end RecordModel
