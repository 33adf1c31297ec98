/-
**Places in schemas.**

A place in a schema is a path from its root, by the positions of the children that are gone through.
In the order of the written document a schema comes before those below it, and these come one after
the other, so that paths come in the order of lists.  At every place a name space is in force, which
is read off the tree alone; with it a record, an enumeration and fixed bytes define a full name.

Main definitions:

* `Schema.children`, `Schema.inner` — the schemas below a schema, and the name space in force there;
* `Schema.place?` — the schema at a path, with the name space in force;
* `Schema.defines`, `Schema.definesAt?` — the named type that a schema defines, and the one at a
  path;
* `Schema.definitions` — all named types that are defined in a schema, in order.

Main results:

* `Schema.mem_definitions_iff` — what is defined is defined at a path;
* `Schema.path_unique` — **with distinct names every name is defined at one path**.
-/

import Mathlib.Data.List.Nodup
import RecordModel.Schema.OfRecord

set_option relaxedAutoImplicit false
set_option autoImplicit false

namespace RecordModel.Schema

/-! ### Schemas below a schema -/

/-- The schemas right below a schema, in order. -/
def children : Schema → List Schema
  | .record r => r.fields.map (·.type)
  | .array items => [items]
  | .map values => [values]
  | .union members => members
  | _ => []

/-- The name space in force below a schema: that of a record which states one, else the one around
it. -/
def inner (space : Option String) : Schema → Option String
  | .record r => r.space.or space
  | _ => space

theorem sizeOf_lt_of_mem_children {n m : Schema} (h : m ∈ n.children) : sizeOf m < sizeOf n := by
  cases n with
  | record r =>
      obtain ⟨name, space, doc, aliases, fields⟩ := r
      obtain ⟨f, hf, rfl⟩ := List.mem_map.mp h
      have hfields : sizeOf f < sizeOf fields := List.sizeOf_lt_of_mem hf
      have hfield : sizeOf f.type < sizeOf f := by
        cases f
        simp only [FieldSchema.mk.sizeOf_spec]
        omega
      simp only [Schema.record.sizeOf_spec, RecordSchema.mk.sizeOf_spec]
      omega
  | array items =>
      cases List.mem_singleton.mp h
      simp
  | map values =>
      cases List.mem_singleton.mp h
      simp
  | union members =>
      have hmembers : sizeOf m < sizeOf members := List.sizeOf_lt_of_mem h
      simp only [Schema.union.sizeOf_spec]
      omega
  | _ => simp [children] at h

/-- Induction over schemas: a schema comes from those right below it. -/
theorem induction_children {P : Schema → Prop} (h : ∀ n : Schema, (∀ m ∈ n.children, P m) → P n)
    (n : Schema) : P n :=
  h n fun m _ => induction_children h m
termination_by sizeOf n
decreasing_by exact sizeOf_lt_of_mem_children ‹_›

/-! ### Places -/

/-- The place at the end of a path: the name space in force there, and the schema. -/
def place? : Option String → Schema → List Nat → Option (Option String × Schema)
  | space, n, [] => some (space, n)
  | space, n, i :: path =>
      match n.children[i]? with
      | some m => place? (n.inner space) m path
      | none => none

/-- The named type that a schema defines where a name space is in force, by its bare name. -/
def defines (space : Option String) : Schema → Option (String × NamedDefinition)
  | .record r => some (r.name, ⟨Record.qualify (r.space.or space) r.name, .record⟩)
  | .enum type => some (type.name, ⟨Record.qualify space type.name, .enum type⟩)
  | .fixed type => some (type.name, ⟨Record.qualify space type.name, .fixed type⟩)
  | _ => none

/-- The named type that is defined at a path. -/
def definesAt? (space : Option String) (n : Schema) (path : List Nat) :
    Option (String × NamedDefinition) :=
  (n.place? space path).bind fun p => p.2.defines p.1

@[simp] theorem place?_nil (space : Option String) (n : Schema) :
    n.place? space [] = some (space, n) := rfl

theorem place?_cons (space : Option String) (n : Schema) (i : Nat) (path : List Nat) :
    n.place? space (i :: path) = n.children[i]?.bind fun m => m.place? (n.inner space) path := by
  rw [place?]
  cases n.children[i]? <;> rfl

theorem definesAt?_cons (space : Option String) (n : Schema) (i : Nat) (path : List Nat) :
    n.definesAt? space (i :: path) =
      n.children[i]?.bind fun m => m.definesAt? (n.inner space) path := by
  rw [definesAt?, place?_cons]
  cases n.children[i]? <;> rfl

/-! ### Definitions -/

/-- The named types that are defined in a schema, in the order of the document. -/
def definitions (space : Option String) (n : Schema) : List (String × NamedDefinition) :=
  (n.defines space).toList ++
    n.children.attach.flatMap fun m => definitions (n.inner space) m.1
termination_by sizeOf n
decreasing_by exact sizeOf_lt_of_mem_children m.2

/-- What is defined in a schema is what it defines by itself, and what is defined below it. -/
theorem definitions_eq (space : Option String) (n : Schema) :
    n.definitions space =
      (n.defines space).toList ++ n.children.flatMap (definitions (n.inner space)) := by
  rw [definitions]
  simp

/-- What is defined is defined at a path. -/
theorem mem_definitions_iff (space : Option String) (n : Schema) (d : String × NamedDefinition) :
    d ∈ n.definitions space ↔ ∃ path, n.definesAt? space path = some d := by
  induction n using induction_children generalizing space with
  | h n ih =>
      rw [definitions_eq, List.mem_append, Option.mem_toList, List.mem_flatMap]
      constructor
      · rintro (h | ⟨m, hm, h⟩)
        · exact ⟨[], h⟩
        · obtain ⟨path, hpath⟩ := (ih m hm _).mp h
          obtain ⟨i, hi⟩ := List.mem_iff_getElem?.mp hm
          refine ⟨i :: path, ?_⟩
          rw [definesAt?_cons, hi]
          exact hpath
      · rintro ⟨path, hpath⟩
        cases path with
        | nil => exact Or.inl hpath
        | cons i path =>
            rw [definesAt?_cons] at hpath
            obtain ⟨m, hi, hpath⟩ := Option.bind_eq_some_iff.mp hpath
            have hm := List.mem_of_getElem? hi
            exact Or.inr ⟨m, hm, (ih m hm _).mpr ⟨path, hpath⟩⟩

theorem keys_definitions (space : Option String) (n : Schema) :
    Keyed.keys (n.definitions space) =
      (n.defines space).toList.map Prod.fst ++
        n.children.flatMap fun m => Keyed.keys (m.definitions (n.inner space)) := by
  rw [definitions_eq, Keyed.keys, List.map_append, List.map_flatMap]
  rfl

theorem mem_keys_of_definesAt? {space : Option String} {n : Schema} {path : List Nat}
    {d : String × NamedDefinition} (h : n.definesAt? space path = some d) :
    d.1 ∈ Keyed.keys (n.definitions space) :=
  List.mem_map_of_mem ((mem_definitions_iff space n d).mpr ⟨path, h⟩)

/-- **With distinct names every name is defined at one path.** -/
theorem path_unique {space : Option String} {n : Schema}
    (hn : (Keyed.keys (n.definitions space)).Nodup) {p q : List Nat}
    {d e : String × NamedDefinition} (hp : n.definesAt? space p = some d)
    (hq : n.definesAt? space q = some e) (hde : d.1 = e.1) : p = q := by
  induction n using induction_children generalizing space p q with
  | h n ih =>
      rw [keys_definitions, List.nodup_append] at hn
      obtain ⟨-, hchildren, hroot⟩ := hn
      obtain ⟨heach, hpairs⟩ := List.nodup_flatMap.mp hchildren
      -- what a child defines is not defined by the schema itself
      have hbelow : ∀ {i : Nat} {path : List Nat} {x y : String × NamedDefinition},
          n.defines space = some x → n.definesAt? space (i :: path) = some y → x.1 ≠ y.1 := by
        intro i path x y hx hy
        rw [definesAt?_cons] at hy
        obtain ⟨m, hi, hy⟩ := Option.bind_eq_some_iff.mp hy
        refine hroot x.1 (by simp [hx]) y.1 ?_
        exact List.mem_flatMap.mpr ⟨m, List.mem_of_getElem? hi, mem_keys_of_definesAt? hy⟩
      cases p with
      | nil =>
          cases q with
          | nil => rfl
          | cons j q => exact absurd hde (hbelow hp hq)
      | cons i p =>
          cases q with
          | nil => exact absurd hde.symm (hbelow hq hp)
          | cons j q =>
              rw [definesAt?_cons] at hp hq
              obtain ⟨m, hi, hp⟩ := Option.bind_eq_some_iff.mp hp
              obtain ⟨m', hj, hq⟩ := Option.bind_eq_some_iff.mp hq
              have hmem := mem_keys_of_definesAt? hp
              have hmem' := mem_keys_of_definesAt? hq
              obtain ⟨hi', rfl⟩ := List.getElem?_eq_some_iff.mp hi
              obtain ⟨hj', rfl⟩ := List.getElem?_eq_some_iff.mp hj
              rw [List.pairwise_iff_getElem] at hpairs
              rcases Nat.lt_trichotomy i j with hij | rfl | hji
              · exact absurd (hde ▸ hmem') (fun h => hpairs i j hi' hj' hij hmem h)
              · rw [ih _ (List.getElem_mem hi') (heach _ (List.getElem_mem hi')) hp hq]
              · exact absurd hmem' (fun h => hpairs j i hj' hi' hji h (hde ▸ hmem))

end RecordModel.Schema
