/-
**The registry of records.**

A registry keeps records by their names.  A record comes into it by being declared, or when it is
asked for and the provider of the registry has a declaration for it; once there it is never removed.
Declaring a name again replaces its record, unless the new one is equal to it.

Main definitions:

* `Provider` — where declarations come from;
* `Registry` — the records, and the provider;
* `Registry.answer` — the record that a name stands for, without remembering it;
* `RegistryM`, `Registry.fetch`, `Registry.declare` — the operations that may add a record.

Main results:

* `Registry.answer_remember` — remembering an answer changes no answer;
* `Registry.fetch_run` — fetching gives the answer, and remembers it.
-/

import RecordModel.Declaration.Settled
import RecordModel.Stateful

set_option relaxedAutoImplicit false
set_option autoImplicit false

namespace RecordModel

/-! ### Providers -/

/-- Where declarations come from: for every name a declaration, or none, or an error.  Only finitely
many names have a declaration: a computation that ends asks for no more. -/
structure Provider where
  declaration : String → Except Error (Option DeclaredRecord)
  names : List String
  /-- Every name with a declaration is listed. -/
  complete : ∀ n d, declaration n = .ok (some d) → n ∈ names

namespace Provider

/-- The provider with the given declarations, by the names under which they are listed. -/
def ofEntries (entries : List (String × DeclaredRecord)) : Provider where
  declaration n := .ok (Keyed.get? n entries)
  names := Keyed.keys entries
  complete n d h := by
    have hg : Keyed.get? n entries = some d := by simpa using h
    exact List.mem_map.mpr ⟨(n, d), Keyed.mem_of_get? hg, rfl⟩

/-- The provider with the given declarations, by their own names. -/
def ofDeclarations (declarations : List DeclaredRecord) : Provider :=
  ofEntries (declarations.map fun d => (d.name, d))

/-- The provider that refuses one name with an error. -/
def refusing (p : Provider) (name : String) (e : Error) : Provider where
  declaration n := if n = name then .error e else p.declaration n
  names := p.names
  complete n d h := by
    by_cases hn : n = name
    · simp [hn] at h
    · exact p.complete n d (by simpa [hn] using h)

/-- The record of a name: the declaration has to be there and to bear the name. -/
def record (p : Provider) (name : String) : Except Error Record := do
  match ← p.declaration name with
  | none => .error (.unknownRecord name)
  | some d =>
      if d.name = name then Record.ofDeclaration d
      else .error (.configuration name none (.otherName d.name))

end Provider

/-! ### Registries -/

/-- Records by their names, and where further declarations come from. -/
structure Registry where
  provider : Option Provider
  records : List (String × Record)

namespace Registry

/-- The registry without records and without a provider. -/
def empty : Registry := ⟨none, []⟩

/-- The registry without records that asks a provider. -/
def ofProvider (p : Provider) : Registry := ⟨some p, []⟩

/-- The record that is kept under a name. -/
def get? (r : Registry) (name : String) : Option Record := Keyed.get? name r.records

/-- Whether a record is kept under a name. -/
def contains (r : Registry) (name : String) : Bool := (r.get? name).isSome

/-- The names of the kept records, in ascending order. -/
def names (r : Registry) : List String := (Keyed.keys r.records).mergeSort fun a b => a ≤ b

/-- The number of kept records. -/
def size (r : Registry) : Nat := r.records.length

/-- The names that may have a record: those of kept records, and those that the provider lists. -/
def knownNames (r : Registry) : List String :=
  Keyed.keys r.records ++ ((r.provider.map Provider.names).getD [])

/-- The registry with a record under a name. -/
def store (r : Registry) (name : String) (record : Record) : Registry :=
  { r with records := Keyed.put name record r.records }

/-- The record that a name stands for: the kept one, or the one of the provider. -/
def answer (r : Registry) (name : String) : Except Error Record :=
  match r.get? name with
  | some record => .ok record
  | none =>
      match r.provider with
      | none => .error (.unknownRecord name)
      | some p => p.record name

/-- The registry after a name has been asked for: a record that was not kept yet is kept. -/
def remember (r : Registry) (name : String) : Registry :=
  match r.get? name, r.answer name with
  | none, .ok record => r.store name record
  | _, _ => r

/-- The text of a registry: the names of its records, and whether it has a provider. -/
def text (r : Registry) : String :=
  "RecordRegistry \x7b records: [" ++ ", ".intercalate (r.names.map Text.quoted) ++
    "], has_provider: " ++ (if r.provider.isSome then "true" else "false") ++ " \x7d"

/-- What was stored under a name is kept there, and nothing else changes. -/
theorem get?_store (r : Registry) (name other : String) (record : Record) :
    (r.store name record).get? other = if name = other then some record else r.get? other := by
  simp [get?, store, Keyed.get?_put]

/-- Remembering an answer changes no answer. -/
theorem answer_remember (r : Registry) (name other : String) :
    (r.remember name).answer other = r.answer other := by
  unfold remember
  split
  · rename_i record hg ha
    by_cases h : name = other
    · subst h
      rw [ha]
      simp [answer, get?_store]
    · simp only [answer, get?_store, if_neg h]
      rfl
  · rfl

end Registry

/-! ### Operations -/

/-- Computations that may add records to a registry; what was added stays after an error. -/
abbrev RegistryM := Stateful Registry Error

/-- What declaring a record did. -/
inductive Declared where
  /-- The name was new. -/
  | added
  /-- The record was there already. -/
  | kept
  /-- The name had another record. -/
  | replaced
deriving DecidableEq

namespace Registry

/-- The record that a name stands for, which is kept from then on. -/
def fetch (name : String) : RegistryM Record :=
  ExceptT.mk fun r => (r.answer name, r.remember name)

/-- Fetching gives the answer, and remembers it. -/
theorem fetch_run (name : String) (r : Registry) :
    (fetch name).run r = (r.answer name, r.remember name) := rfl

/-- Keeps the record of a declaration, and gives the record that is kept from then on. -/
def declare (d : DeclaredRecord) : RegistryM (Record × Declared) :=
  ExceptT.mk fun r =>
    match Record.ofDeclaration d with
    | .error e => (.error e, r)
    | .ok record =>
        match r.get? record.name with
        | none => (.ok (record, .added), r.store record.name record)
        | some old =>
            if old.same record then (.ok (old, .kept), r)
            else (.ok (record, .replaced), r.store record.name record)

/-- Keeps the records of declarations, one after the other. -/
def declareAll : List DeclaredRecord → RegistryM Unit
  | [] => pure ()
  | d :: rest => do
      let _ ← declare d
      declareAll rest

end Registry

end RecordModel
