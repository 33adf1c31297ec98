/-
**The walk through records ends.**

The walk that makes the schema of a record expands a name only where it is not defined yet, and
defines it at once.  So every expansion leaves one known name less to be defined, and a bound on the
expansions that is above the number of these names is never met: any such bound gives the same.

For the same reason the schema depends on the answers of the registry alone, and not on what the
registry keeps already, although the bound is taken from the names that the registry knows.

Main definitions:

* `Schema.pending` — the number of known names that are not defined yet;
* `Schema.InStep` — two walks at the same point, with enough expansions left;
* `Schema.ofFetched` — the walk through a record.

Main results:

* `Schema.pending_define_lt` — defining a known name leaves fewer of them;
* `Schema.expandF_agree` — walks that are in step agree;
* `Schema.expandF_run_eq` — **the bound on the expansions is never met**;
* `Schema.ofRecord_agree` — **the schema of a record depends on the answers alone**.
-/

import RecordModel.Proofs.Agreement
import RecordModel.Proofs.Renders

set_option relaxedAutoImplicit false
set_option autoImplicit false

namespace RecordModel.Schema

open Stateful

/-! ### Names that are not defined yet -/

/-- The number of known names that are not defined yet. -/
def pending (known : List String) (definitions : List (String × NamedDefinition)) : Nat :=
  known.countP fun name => name ∉ Keyed.keys definitions

@[simp] theorem pending_nil (known : List String) : pending known [] = known.length := by
  simp [pending]

theorem pending_cons (name : String) (known : List String)
    (definitions : List (String × NamedDefinition)) :
    pending (name :: known) definitions =
      pending known definitions + if name ∈ Keyed.keys definitions then 0 else 1 := by
  simp [pending, List.countP_cons]

theorem pending_define_le (known : List String) (name : String) (d : NamedDefinition)
    (definitions : List (String × NamedDefinition)) :
    pending known (Keyed.put name d definitions) ≤ pending known definitions := by
  refine List.countP_mono_left fun other _ hother => ?_
  simp only [Keyed.keys_put, decide_eq_true_eq] at hother ⊢
  split at hother
  · exact hother
  · exact fun h => hother (List.mem_append_left _ h)

/-- Defining a known name leaves fewer of them. -/
theorem pending_define_lt {known : List String} {name : String} (d : NamedDefinition)
    {definitions : List (String × NamedDefinition)} (hk : name ∈ known)
    (hfresh : name ∉ Keyed.keys definitions) :
    pending known (Keyed.put name d definitions) < pending known definitions := by
  have hdefined : name ∈ Keyed.keys (Keyed.put name d definitions) := by
    rw [Keyed.keys_put, if_neg hfresh]
    exact List.mem_append_right _ (List.mem_singleton_self _)
  -- the name itself counts no more; those before and after it in the list count no more often
  obtain ⟨front, rest, rfl⟩ := List.append_of_mem hk
  have hfront := pending_define_le front name d definitions
  have hrest := pending_define_le rest name d definitions
  have happend : ∀ definitions, pending (front ++ name :: rest) definitions =
      pending front definitions + pending (name :: rest) definitions :=
    fun definitions => List.countP_append
  rw [happend, happend, pending_cons, pending_cons, if_pos hdefined, if_neg hfresh]
  omega

/-! ### Walks in step -/

/-- Two walks at the same point: the same types are defined, and each of them has more expansions
left than known names that are not defined. -/
structure InStep (P : Registry → Registry → Prop) (known known' : List String)
    (budget budget' : Nat) (s t : Expansion) : Prop where
  registries : P s.registry t.registry
  definitions : s.definitions = t.definitions
  enough : pending known s.definitions < budget
  enough' : pending known' t.definitions < budget'

/-- From states in the relation both give the same for a record that is not defined yet. -/
def ExpandAlike (R : Expansion → Expansion → Prop)
    (expand expand' : Scope → String → ExpansionM Schema) : Prop :=
  ∀ scope name s t, R s t → name ∉ Keyed.keys s.definitions →
    ((expand scope name).run s).1 = ((expand' scope name).run t).1 ∧
      R ((expand scope name).run s).2 ((expand' scope name).run t).2

section

variable {P : Registry → Registry → Prop} {known known' : List String} {budget budget' : Nat}
  {expand expand' : Scope → String → ExpansionM Schema}

theorem definition?_agree (name : String) :
    Agree (InStep P known known' budget budget') (definition? name) (definition? name) := by
  intro s t h
  rw [definition?_run, definition?_run, h.definitions]
  exact ⟨rfl, h⟩

theorem define_agree (name : String) (d : NamedDefinition) :
    Agree (InStep P known known' budget budget') (define name d) (define name d) := by
  intro s t h
  refine ⟨rfl, h.registries, congrArg (Keyed.put name d) h.definitions, ?_, ?_⟩
  · exact Nat.lt_of_le_of_lt (pending_define_le known name d s.definitions) h.enough
  · exact Nat.lt_of_le_of_lt (pending_define_le known' name d t.definitions) h.enough'

/-- An enumeration or fixed bytes. -/
theorem named_agree (scope : Scope) (name : String) (type : NamedType) (full : Schema) :
    Agree (InStep P known known' budget budget') (named scope name type full)
      (named scope name type full) := by
  refine Agree.bind (definition?_agree name) fun d? => ?_
  cases d? with
  | none => exact Agree.bind (define_agree name _) fun _ => Agree.pure full
  | some d =>
      dsimp only
      split
      · exact Agree.pure _
      · exact Agree.throw _

/-- A reference to a record. -/
theorem referenced_agree
    (hexpand : ExpandAlike (InStep P known known' budget budget') expand expand') (scope : Scope)
    (name : String) :
    Agree (InStep P known known' budget budget') (referenced expand scope name)
      (referenced expand' scope name) := by
  intro s t h
  rw [referenced, referenced, run_bind, run_bind, definition?_run, definition?_run,
    ← h.definitions]
  cases hget : Keyed.get? name s.definitions with
  | none => exact hexpand scope name s t h ((Keyed.get?_eq_none_iff _ _).mp hget)
  | some d =>
      dsimp only
      split
      · exact ⟨rfl, h⟩
      · exact ⟨rfl, h⟩

/-- The walk through a type. -/
theorem ofDescriptor_agree
    (hexpand : ExpandAlike (InStep P known known' budget budget') expand expand') (scope : Scope)
    (d : Descriptor) :
    Agree (InStep P known known' budget budget') (ofDescriptor expand scope d)
      (ofDescriptor expand' scope d) := by
  induction d using Descriptor.induction_alternatives with
  | primitive kind =>
      rw [ofDescriptor, ofDescriptor]
      exact Agree.pure _
  | logical kind =>
      rw [ofDescriptor, ofDescriptor]
      exact Agree.pure _
  | fixed type =>
      rw [ofDescriptor, ofDescriptor]
      exact named_agree scope _ _ _
  | enum type =>
      rw [ofDescriptor, ofDescriptor]
      exact named_agree scope _ _ _
  | array items ih =>
      rw [ofDescriptor, ofDescriptor]
      exact Agree.map ih _
  | map values ih =>
      rw [ofDescriptor, ofDescriptor]
      exact Agree.map ih _
  | choice d hd ih =>
      rw [ofDescriptor_of_hasAlternatives _ _ hd, ofDescriptor_of_hasAlternatives _ _ hd]
      exact Agree.map (Agree.mapM ih) _
  | reference name =>
      rw [ofDescriptor, ofDescriptor]
      exact referenced_agree hexpand scope name

/-- The walk through a field. -/
theorem ofField_agree
    (hexpand : ExpandAlike (InStep P known known' budget budget') expand expand') (strict : Bool)
    (scope : Scope) (f : Field) :
    Agree (InStep P known known' budget budget') (ofField expand strict scope f)
      (ofField expand' strict scope f) := by
  unfold ofField
  refine Agree.bind (fun s t h => ⟨rfl, h⟩) fun _ => ?_
  dsimp only
  split
  · refine Agree.bind ?_ fun type => Agree.pure _
    exact Agree.map (Agree.mapM fun d _ => ofDescriptor_agree hexpand scope d) _
  · exact Agree.bind (ofDescriptor_agree hexpand scope f.type) fun type => Agree.pure _

end

/-! ### Records -/

/-- The schema of a record that has been fetched: its name is defined, and then come its fields. -/
def ofFetched (expand : Scope → String → ExpansionM Schema) (strict : Bool) (outer : Scope)
    (record : Record) : ExpansionM Schema := do
  let scope : Scope := ⟨record.name, record.space.or outer.space⟩
  define record.name ⟨Record.qualify scope.space record.name, .record⟩
  let fields ← record.fields.mapM (ofField expand strict scope)
  return .record ⟨record.name, record.space, record.doc, record.aliases, fields⟩

/-- An expansion fetches the record first. -/
theorem expandF_succ (strict : Bool) (budget : Nat) (outer : Scope) (name : String) :
    expandF strict (budget + 1) outer name =
      fetch name >>= ofFetched (expandF strict budget) strict outer := rfl

section

variable {P : Registry → Registry → Prop} {known known' : List String} {budget budget' : Nat}
  {expand expand' : Scope → String → ExpansionM Schema}

/-- **The walk through a known record**: it defines the name, so that the walks are in step below it
with an expansion less on both sides. -/
theorem ofFetched_agree
    (hexpand : ExpandAlike (InStep P known known' budget budget') expand expand') (strict : Bool)
    (outer : Scope) {record : Record} (hk : record.name ∈ known) (hk' : record.name ∈ known')
    {s t : Expansion} (h : InStep P known known' (budget + 1) (budget' + 1) s t)
    (hfresh : record.name ∉ Keyed.keys s.definitions) :
    ((ofFetched expand strict outer record).run s).1 =
        ((ofFetched expand' strict outer record).run t).1 ∧
      InStep P known known' (budget + 1) (budget' + 1)
        ((ofFetched expand strict outer record).run s).2
        ((ofFetched expand' strict outer record).run t).2 := by
  let scope : Scope := ⟨record.name, record.space.or outer.space⟩
  let d : NamedDefinition := ⟨Record.qualify scope.space record.name, .record⟩
  have hlt := pending_define_lt d hk hfresh
  have hlt' := pending_define_lt d hk' (h.definitions ▸ hfresh)
  have hbelow : InStep P known known' budget budget'
      ⟨s.registry, Keyed.put record.name d s.definitions⟩
      ⟨t.registry, Keyed.put record.name d t.definitions⟩ :=
    ⟨h.registries, congrArg (Keyed.put record.name d) h.definitions,
      Nat.lt_of_lt_of_le hlt (Nat.le_of_lt_succ h.enough),
      Nat.lt_of_lt_of_le hlt' (Nat.le_of_lt_succ h.enough')⟩
  have hfields : Agree (InStep P known known' budget budget')
      (record.fields.mapM (ofField expand strict scope))
      (record.fields.mapM (ofField expand' strict scope)) :=
    Agree.mapM fun f _ => ofField_agree hexpand strict scope f
  obtain ⟨hschema, hafter⟩ := Agree.bind hfields (fun fields => Agree.pure
    (Schema.record ⟨record.name, record.space, record.doc, record.aliases, fields⟩)) _ _ hbelow
  exact ⟨hschema, hafter.registries, hafter.definitions, Nat.lt_succ_of_lt hafter.enough,
    Nat.lt_succ_of_lt hafter.enough'⟩

/-- **Walks that are in step agree.** -/
theorem expandF_agree {answer : String → Except Error Record} (ha : Settled answer)
    (hanswer : ∀ r q, P r q → r.answer = answer)
    (hfetch : ∀ name, Agree P (Registry.fetch name) (Registry.fetch name))
    (hk : ∀ n record, answer n = .ok record → n ∈ known)
    (hk' : ∀ n record, answer n = .ok record → n ∈ known') (strict : Bool)
    (budget budget' : Nat) :
    ExpandAlike (InStep P known known' budget budget') (expandF strict budget)
      (expandF strict budget') := by
  -- induction on the bounds; neither of them can be met, for fewer names than that are pending
  induction budget generalizing budget' with
  | zero =>
      intro outer name s t h
      exact absurd h.enough (Nat.not_lt_zero _)
  | succ budget ih =>
      cases budget' with
      | zero =>
          intro outer name s t h
          exact absurd h.enough' (Nat.not_lt_zero _)
      | succ budget' =>
          intro outer name s t h hfresh
          obtain ⟨hsame, hregistries⟩ := hfetch name _ _ h.registries
          rw [Registry.fetch_run, Registry.fetch_run] at hsame hregistries
          dsimp only at hsame
          have hfetched : InStep P known known' (budget + 1) (budget' + 1)
              ⟨s.registry.remember name, s.definitions⟩
              ⟨t.registry.remember name, t.definitions⟩ :=
            ⟨hregistries, h.definitions, h.enough, h.enough'⟩
          rw [expandF_succ, expandF_succ, run_bind, run_bind, fetch_run, fetch_run, ← hsame]
          cases hr : s.registry.answer name with
          | error e => exact ⟨rfl, hfetched⟩
          | ok record =>
              have hrecord : answer name = .ok record := hanswer _ _ h.registries ▸ hr
              cases ha.name_eq hrecord
              exact ofFetched_agree (ih budget') strict outer (hk _ record hrecord)
                (hk' _ record hrecord) hfetched hfresh

end

/-! ### The schema of a record -/

/-- **The schema of a record depends on the answers alone.** -/
theorem ofRecord_agree {answer : String → Except Error Record} (ha : Settled answer)
    (strict : Bool) (name : String) :
    Agree (SameAnswers answer) (ofRecord strict name) (ofRecord strict name) := by
  rintro r q ⟨hr, hq⟩
  have hstart : InStep (SameAnswers answer) r.knownNames q.knownNames
      (r.knownNames.length + 1) (q.knownNames.length + 1) ⟨r, []⟩ ⟨q, []⟩ :=
    ⟨⟨hr, hq⟩, rfl, by simp, by simp⟩
  obtain ⟨hschema, hafter⟩ := expandF_agree ha (fun _ _ h => h.1) (fetch_agree answer)
    hr.mem_knownNames hq.mem_knownNames strict _ _ ⟨"", none⟩ name _ _ hstart (by simp)
  exact ⟨hschema, hafter.registries⟩

end RecordModel.Schema
