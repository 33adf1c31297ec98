/-
**What errors name.**

An error of a schema or of an instance may come up many records below the one that is asked for,
after any number of others that were gone through.  The record that it names is one that can be
reached, and it is that record that something is wrong with: the default of a field that it
declares, a name within the type of one of its fields, or a field that has no value.

There is one other source of errors.  A provider may have an error for a name, of any kind and about
any record; when the name is asked for, the registry hands the error on as it is.

Main definitions:

* `Registry.Raises`, `Registry.HandsOn` — the provider itself has the error for a name, and for one
  that can be reached;
* `SchemaCulprit`, `InstanceCulprit` — what an error of a schema and one of an instance name;
* `Generator.Position.OfField` — a position at a field of a record that can be reached;
* `Blames` — what a failure of an instance names.

Main results:

* `Registry.answer_error` — the errors that a registry answers with;
* `Registry.not_handsOn` — nothing is handed on from a provider with a list of declarations;
* `Stuck.blames` — **a failure on the way is one at a field that can be reached**;
* `errors_name_culprits` — **what the errors of schemas and instances name**;
* `raised_errors_name_others` — what is handed on may name a record that cannot be reached.
-/

import RecordModel.Proofs.Buildable
import RecordModel.Proofs.Drawn

set_option relaxedAutoImplicit false
set_option autoImplicit false

namespace RecordModel

open Stateful

/-! ### Errors of answers -/

/-- The error of a field that cannot be settled is one of its declaration. -/
theorem Field.ofDeclarations_error {record : String} {seen : List String}
    {ds : List DeclaredField} {e : Error} (h : Field.ofDeclarations record seen ds = .error e) :
    ∃ field fault, e = .configuration record field fault := by
  induction ds generalizing seen with
  | nil => cases h
  | cons d rest ih =>
      rw [ofDeclarations] at h
      split at h
      · cases h
        exact ⟨_, _, rfl⟩
      · unfold ofDeclaration at h
        cases htype : d.typeAndDefault record with
        | error fault =>
            simp only [htype] at h
            cases h
            exact ⟨_, _, rfl⟩
        | ok type =>
            simp only [htype] at h
            cases hrest : ofDeclarations record (d.name :: seen) rest with
            | error e' =>
                rw [hrest] at h
                cases h
                exact ih hrest
            | ok fields =>
                rw [hrest] at h
                cases h

/-- The error of a record that cannot be settled is one of its declaration. -/
theorem Record.ofDeclaration_error {d : DeclaredRecord} {e : Error}
    (h : Record.ofDeclaration d = .error e) :
    ∃ record field fault, e = .configuration record field fault := by
  unfold ofDeclaration at h
  split at h
  · cases h
    exact ⟨_, _, _, rfl⟩
  · cases hfields : Field.ofDeclarations d.name [] d.fields with
    | error e' =>
        rw [hfields] at h
        cases h
        obtain ⟨field, fault, rfl⟩ := Field.ofDeclarations_error hfields
        exact ⟨_, _, _, rfl⟩
    | ok fields =>
        rw [hfields] at h
        cases h

/-- A provider has no record of a name: there is no declaration, or a wrong one, or there is an
error. -/
theorem Provider.record_error {p : Provider} {name : String} {e : Error}
    (h : p.record name = .error e) :
    e = .unknownRecord name ∨ (∃ record field fault, e = .configuration record field fault) ∨
      p.declaration name = .error e := by
  unfold record at h
  cases hd : p.declaration name with
  | error e' =>
      rw [hd] at h
      cases h
      exact Or.inr (Or.inr rfl)
  | ok d? =>
      rw [hd] at h
      cases d? with
      | none =>
          cases h
          exact Or.inl rfl
      | some d =>
          change (if d.name = name then Record.ofDeclaration d else _) = _ at h
          split at h
          · exact Or.inr (Or.inl (Record.ofDeclaration_error h))
          · cases h
            exact Or.inr (Or.inl ⟨_, _, _, rfl⟩)

namespace Registry

/-- The provider itself has the error for the name. -/
def Raises (r : Registry) (name : String) (e : Error) : Prop :=
  ∃ p, r.provider = some p ∧ p.declaration name = .error e

/-- The error is handed on: the provider has it for a name that can be reached, and the registry
answers with it. -/
def HandsOn (r : Registry) (root : String) (e : Error) : Prop :=
  ∃ other, Reachable r.answer root other ∧ r.Raises other e ∧ r.answer other = .error e

/-- **The errors that a registry answers with**: the record is unknown, its declaration is wrong, or
the provider has the error. -/
theorem answer_error {r : Registry} {name : String} {e : Error} (h : r.answer name = .error e) :
    e = .unknownRecord name ∨ (∃ record field fault, e = .configuration record field fault) ∨
      r.Raises name e := by
  unfold answer at h
  split at h
  · cases h
  · cases hp : r.provider with
    | none =>
        rw [hp] at h
        cases h
        exact Or.inl rfl
    | some p =>
        rw [hp] at h
        exact (Provider.record_error h).imp_right (Or.imp_right fun hd => ⟨p, hp, hd⟩)

/-- An error that a registry answers with is handed on, unless the record is unknown or its
declaration is wrong. -/
theorem handsOn_of_answer {r : Registry} {root name : String} {e : Error}
    (hreach : Reachable r.answer root name) (h : r.answer name = .error e)
    (hknown : ∀ n, e ≠ .unknownRecord n)
    (hdeclared : ∀ record field fault, e ≠ .configuration record field fault) :
    r.HandsOn root e := by
  rcases answer_error h with rfl | ⟨record, field, fault, rfl⟩ | hraises
  · exact absurd rfl (hknown name)
  · exact absurd rfl (hdeclared record field fault)
  · exact ⟨name, hreach, hraises, h⟩

/-- A registry hands no errors on if it has no provider, or one with a list of declarations. -/
theorem not_handsOn {r : Registry}
    (h : ∀ p, r.provider = some p → ∃ ds, p = .ofDeclarations ds) (root : String) (e : Error) :
    ¬ r.HandsOn root e := by
  rintro ⟨name, -, ⟨p, hp, he⟩, -⟩
  obtain ⟨ds, rfl⟩ := h p hp
  cases he

end Registry

/-! ### Schemas -/

theorem checkDefault_error {record owner : String} {f : Field} {strict : Bool}
    {field? : Option String} {fault : SchemaFault}
    (h : checkDefault record f strict = .error (.schema owner field? fault)) :
    owner = record ∧ field? = some f.name := by
  unfold checkDefault at h
  split at h
  · cases h
  · cases h
    exact ⟨rfl, rfl⟩

/-- What a schema error names: the field whose default fails its check, or else the record that has
a name within the type of a field which stands for another type as well. -/
structure SchemaCulprit (answer : String → Except Error Record) (strict : Bool)
    (root owner : String) (field? : Option String) (fault : SchemaFault) : Prop where
  reachable : Reachable answer root owner
  field : ∀ field, field? = some field → ∃ record, answer owner = .ok record ∧
    ∃ f ∈ record.fields, f.name = field ∧
      checkDefault owner f strict = .error (.schema owner field? fault)
  name : field? = none → ∃ record, answer owner = .ok record ∧ ∃ f ∈ record.fields,
    ∃ d b type type', Descriptor.Within d f.type ∧ d.named? = some (b, type) ∧
      Meets answer root b type' ∧ type' ≠ type

/-- **A problem that is a schema error names its culprit**, unless it is handed on. -/
theorem Problem.culprit {r : Registry} {strict : Bool} {root owner : String}
    {field? : Option String} {fault : SchemaFault}
    (h : Problem r.answer strict root (.schema owner field? fault)) :
    r.HandsOn root (.schema owner field? fault) ∨
      SchemaCulprit r.answer strict root owner field? fault := by
  generalize he : Error.schema owner field? fault = e at h
  cases h with
  | unresolved hreach hanswer =>
      subst he
      exact Or.inl (Registry.handsOn_of_answer hreach hanswer (by simp) (by simp))
  | default hreach hr hf hcheck =>
      subst he
      obtain ⟨rfl, rfl⟩ := checkDefault_error hcheck
      refine Or.inr ⟨hreach, fun field hfield => ?_, fun hnone => (by cases hnone)⟩
      cases hfield
      exact ⟨_, hr, _, hf, rfl, hcheck⟩
  | nameTaken hreach hr hf hw hd hmeets hne =>
      cases he
      refine Or.inr ⟨hreach, fun field hfield => (by cases hfield), fun _ => ?_⟩
      exact ⟨_, hr, _, hf, _, _, _, _, hw, hd, hmeets, hne⟩

/-! ### Instances -/

/-- The position is that of a field of a record that can be reached. -/
def Generator.Position.OfField (answer : String → Except Error Record) (root : String)
    (position : Generator.Position) : Prop :=
  Reachable answer root position.record ∧ ∃ record, answer position.record = .ok record ∧
    ∃ f ∈ record.fields, position.field = some f.name

/-- What a failure of an instance names: a field of a record that can be reached, or the least name
that is given a value and is no field.  A record that is not there, and a computation that breaks
down, name none of these. -/
inductive Blames (answer : String → Except Error Record) (root : String)
    (given : List (String × Value)) : Failure → Prop
  | field {position : Generator.Position} (fault : GenerationFault) :
      position.OfField answer root → Blames answer root given (position.failure fault)
  | override {record : Record} {field : String} :
      answer root = .ok record → record.LeastUnknown given field →
      Blames answer root given (.error (.generation root (some field) .unknownOverride))
  | unresolved {other : String} {e : Error} :
      Reachable answer root other → answer other = .error e → Blames answer root given (.error e)
  | breakdown (b : Breakdown) : Blames answer root given (.breakdown b)

section

variable {answer : String → Except Error Record} {root : String} {given : List (String × Value)}

/-- **A failure on the way is one at a field that can be reached**, if the way starts there. -/
theorem Stuck.blames {s : Settings} {levels : Nat} {chain : List String}
    {position : Generator.Position} {d : Descriptor} {e : Failure}
    (h : Stuck answer s levels chain position d e) (hposition : position.OfField answer root)
    (hd : d.Names (Reachable answer root)) : Blames answer root given e := by
  -- induction on the way to the failure: only a record moves the position, to one of its fields
  induction h with
  | tooDeep => exact .field _ hposition
  | noRoom _ => exact .breakdown _
  | logical _ => exact .field _ hposition
  | noSymbols _ => exact .field _ hposition
  | unresolved hunresolved =>
      obtain ⟨other, ⟨first, hw, hother⟩, he⟩ := hunresolved
      exact .unresolved ((hd first hw).trans hother) he
  | noMember _ _ => exact .field _ hposition
  | noTerminalCase _ => exact .field _ hposition
  | items _ _ ih => exact ih hposition (hd.of_within (.items .refl))
  | values _ _ ih => exact ih hposition (hd.of_within (.values .refl))
  | member _ hm _ _ _ ih => exact ih hposition (hd.alternative hm)
  | field _ hr hf _ ih =>
      have hreach := hd _ .refl
      exact ih ⟨hreach, _, hr, _, hf, rfl⟩ fun other hw => hreach.tail ⟨_, hr, _, hf, hw⟩

/-- With settings that have no problem, what fails is a field, a given value or a record. -/
theorem drawInstance_blames {σ : Type} [RandomSource σ] (ha : Settled answer) {s : Settings}
    (hs : s.Valid) (root : String) (given : List (String × Value)) :
    Gives (Generator.Knows (σ := σ) answer) (drawInstance s root given) (fun _ => True)
      (Blames answer root given) := by
  have hinstance : Gives (Generator.Knows (σ := σ) answer) (drawInstance s root given) _
      (Blames answer root given) :=
    drawInstance_gives_of_fields (P := fun _ _ => True) (Answers.lasting answer) ha s trivial given
      (fun problem hp => by cases hs.symm.trans hp) (fun e he => .unresolved .refl he)
      (fun record hr field hfield => .override hr hfield)
      fun record hr f hf _ => by
        have hfield := Generator.valueF_gives (σ := σ) ha s s.nestingDepth [root]
          ⟨root, some f.name⟩ f.type
        refine hfield.mono (fun _ _ => trivial) fun e he => he.blames ?_ ?_
        · exact ⟨.refl, record, hr, f, hf, rfl⟩
        · exact fun other hw => .single ⟨record, hr, f, hf, hw⟩
  exact hinstance.mono (fun _ _ => trivial) fun _ he => he

/-- The least name that is given a value and is no field is refused before anything is drawn. -/
theorem run_drawInstance_of_leastName? {σ : Type} [RandomSource σ] {r : Registry} {s : Settings}
    (hs : s.Valid) {record : Record} (hr : r.answer root = .ok record)
    (given : List (String × Value)) {field : String}
    (hleast : leastName? ((Keyed.keys given).filter fun k => (record.field? k).isNone) = some field)
    (source : σ) :
    (drawInstance s root given).run ⟨r, source⟩ =
      (.error (.error (.generation root (some field) .unknownOverride)),
        ⟨r.remember root, source⟩) := by
  have hsettings : (checkSettings s root : GeneratorM σ Unit) = pure () := by
    rw [checkSettings, hs]
  rw [drawInstance, hsettings, run_bind, run_pure]
  dsimp only
  rw [run_bind, Generator.ask, run_onPart, Registry.fetch_run, hr]
  dsimp only [Except.mapError]
  rw [hleast]
  rfl

end

/-- What an error of an instance names: a field that a record declares which can be reached, or the
least name that is given a value and is no field of the record itself. -/
structure InstanceCulprit (answer : String → Except Error Record) (root : String)
    (given : List (String × Value)) (owner : String) (field? : Option String) : Prop where
  reachable : Reachable answer root owner
  field : ∃ record field, answer owner = .ok record ∧ field? = some field ∧
    ((∃ f ∈ record.fields, f.name = field) ∨
      owner = root ∧ record.LeastUnknown given field)

/-- **A failure that is a generation error names its culprit**, unless it is handed on. -/
theorem Blames.culprit {r : Registry} {root owner : String} {given : List (String × Value)}
    {field? : Option String} {fault : GenerationFault}
    (h : Blames r.answer root given (.error (.generation owner field? fault))) :
    r.HandsOn root (.generation owner field? fault) ∨
      InstanceCulprit r.answer root given owner field? := by
  generalize he : Failure.error (.generation owner field? fault) = e at h
  cases h with
  | field fault hposition =>
      cases he
      obtain ⟨hreach, record, hr, f, hf, hname⟩ := hposition
      exact Or.inr ⟨hreach, record, f.name, hr, hname, Or.inl ⟨f, hf, rfl⟩⟩
  | override hr hleast =>
      cases he
      exact Or.inr ⟨.refl, _, _, hr, rfl, Or.inr ⟨rfl, hleast⟩⟩
  | unresolved hreach hanswer =>
      cases he
      exact Or.inl (Registry.handsOn_of_answer hreach hanswer (by simp) (by simp))
  | breakdown b => cases he

/-! ### What errors name -/

/-- **Errors name their culprits, or are handed on.**  A schema error is one that the provider has
for a name that can be reached, or it names a record that can be reached.  If it names a field, the
record declares it and its default fails the check with this error; if not, a named type within the
type of a field of the record has its bare name in common with another type that can be met.  With
settings that have no problem, a generation error is one that the provider has for a name that can
be reached, or it names a record that can be reached, and a field that it declares or the least name
that is given a value and is no field of the record asked for. -/
theorem errors_name_culprits {σ : Type} [RandomSource σ] {r : Registry} (hr : r.Reached)
    (name : String) :
    (∀ strict owner field? fault r',
      (Schema.ofRecord strict name).run r = (.error (.schema owner field? fault), r') →
      r.HandsOn name (.schema owner field? fault) ∨
        SchemaCulprit r.answer strict name owner field? fault) ∧
    (∀ (s : Settings) (given : List (String × Value)) (source : σ) owner field? fault t, s.Valid →
      (drawInstance s name given).run ⟨r, source⟩ =
        (.error (.error (.generation owner field? fault)), t) →
      r.HandsOn name (.generation owner field? fault) ∨
        InstanceCulprit r.answer name given owner field?) := by
  refine ⟨fun strict owner field? fault r' hrun => ?_,
    fun s given source owner field? fault t hs hrun => ?_⟩
  · exact (Schema.problem_of_run hr.settled hrun).culprit
  · obtain ⟨-, hblames⟩ := (drawInstance_blames hr.settled hs name given).of_run_error
      (Generator.knows_self r source) hrun
    exact hblames.culprit

/-- A record with a list of brushes. -/
def kitDeclaration : DeclaredRecord :=
  ⟨"Kit", none, none, [], [
    ⟨"brushes", .list (.record "Brush"), none, ⟨none, none, none, none, none, []⟩⟩]⟩

/-- A record with a width whose default is no number. -/
def kitBrushDeclaration : DeclaredRecord :=
  ⟨"Brush", none, none, [], [
    ⟨"width", .int32, some (.value (.string "wide")), ⟨none, none, none, none, none, []⟩⟩]⟩

/-- A record with two enumerations of one name. -/
def paletteDeclaration : DeclaredRecord :=
  ⟨"Palette", none, none, [], [
    ⟨"paper", .enum "Colour" ["white"] none, none, ⟨none, none, none, none, none, []⟩⟩,
    ⟨"ink", .enum "Colour" ["black"] none, none, ⟨none, none, none, none, none, []⟩⟩]⟩

/-- The registry that asks a provider for all three. -/
def kitRegistry : Registry :=
  .ofProvider (.ofDeclarations [kitDeclaration, kitBrushDeclaration, paletteDeclaration])

/-- The schema of a kit fails at the width of its brushes, and that of a palette at the second
enumeration.  A kit with names that it does not have fails at the least of them. -/
theorem kit_culprits :
    kitRegistry.Reached ∧
      (∃ r', (Schema.ofRecord false "Kit").run kitRegistry = (.error (.schema "Brush"
          (some "width") (.notDeclaredType (.string "wide") (.primitive .int32))), r')) ∧
      SchemaCulprit kitRegistry.answer false "Kit" "Brush" (some "width")
        (.notDeclaredType (.string "wide") (.primitive .int32)) ∧
      (∃ r', (Schema.ofRecord false "Palette").run kitRegistry =
        (.error (.schema "Palette" none (.nameTaken "Colour")), r')) ∧
      SchemaCulprit kitRegistry.answer false "Palette" "Palette" none (.nameTaken "Colour") ∧
      Settings.Valid {} ∧
      (∃ t : GeneratorState SplitMix,
        (drawInstance {} "Kit" [("size", .null), ("colour", .null)]).run ⟨kitRegistry, ⟨[], 0⟩⟩ =
          (.error (.error (.generation "Kit" (some "colour") .unknownOverride)), t)) ∧
      InstanceCulprit kitRegistry.answer "Kit" [("size", .null), ("colour", .null)] "Kit"
        (some "colour") := by
  have hreached : kitRegistry.Reached := .new _
  have hown : ∀ root e, ¬ kitRegistry.HandsOn root e :=
    Registry.not_handsOn fun p hp => ⟨_, (Option.some.inj hp).symm⟩
  have hkit : kitRegistry.answer "Kit" = .ok ⟨"Kit", none, none, [], [
      ⟨"brushes", .array (.reference "Brush"), none, 0, none, []⟩]⟩ := by with_unfolding_all rfl
  have hwidth : ∃ r', (Schema.ofRecord false "Kit").run kitRegistry = (.error (.schema "Brush"
      (some "width") (.notDeclaredType (.string "wide") (.primitive .int32))), r') :=
    ⟨_, by with_unfolding_all rfl⟩
  have hname : ∃ r', (Schema.ofRecord false "Palette").run kitRegistry =
      (.error (.schema "Palette" none (.nameTaken "Colour")), r') :=
    ⟨_, by with_unfolding_all rfl⟩
  have hgiven : ∃ t : GeneratorState SplitMix,
      (drawInstance {} "Kit" [("size", .null), ("colour", .null)]).run ⟨kitRegistry, ⟨[], 0⟩⟩ =
        (.error (.error (.generation "Kit" (some "colour") .unknownOverride)), t) := by
    have hleast : leastName? ["size", "colour"] = some "colour" := by
      simp [leastName?, List.mergeSort, List.MergeSort.Internal.splitInTwo]
    exact ⟨_, run_drawInstance_of_leastName? Settings.default_valid hkit
      [("size", .null), ("colour", .null)] hleast _⟩
  obtain ⟨hbuild, hdraw⟩ := errors_name_culprits (σ := SplitMix) hreached "Kit"
  obtain ⟨hpalette, -⟩ := errors_name_culprits (σ := SplitMix) hreached "Palette"
  refine ⟨hreached, hwidth, ?_, hname, ?_, Settings.default_valid, hgiven, ?_⟩
  · obtain ⟨r', hr'⟩ := hwidth
    exact (hbuild _ _ _ _ r' hr').resolve_left (hown _ _)
  · obtain ⟨r', hr'⟩ := hname
    exact (hpalette _ _ _ _ r' hr').resolve_left (hown _ _)
  · obtain ⟨t, ht⟩ := hgiven
    exact (hdraw _ _ _ _ _ _ t Settings.default_valid ht).resolve_left (hown _ _)

/-! ### Errors of providers -/

/-- A record with a bus. -/
def depotDeclaration : DeclaredRecord :=
  ⟨"Depot", none, none, [], [⟨"bus", .record "Bus", none, ⟨none, none, none, none, none, []⟩⟩]⟩

/-- The registry that asks a provider which has an error for the bus. -/
def depotRegistry (e : Error) : Registry :=
  .ofProvider ((Provider.ofDeclarations [depotDeclaration]).refusing "Bus" e)

theorem depotRegistry_answer_depot (e : Error) :
    (depotRegistry e).answer "Depot" =
      .ok ⟨"Depot", none, none, [], [⟨"bus", .reference "Bus", none, 0, none, []⟩]⟩ := by
  with_unfolding_all rfl

theorem depotRegistry_answer_bus (e : Error) : (depotRegistry e).answer "Bus" = .error e := by
  with_unfolding_all rfl

theorem eq_of_depot_reachable {e : Error} {other : String}
    (h : Reachable (depotRegistry e).answer "Depot" other) : other = "Depot" ∨ other = "Bus" := by
  induction h with
  | refl => exact Or.inl rfl
  | tail _ hrefers ih =>
      obtain ⟨record, hr, f, hf, hw⟩ := hrefers
      rcases ih with rfl | rfl
      · cases (depotRegistry_answer_depot e).symm.trans hr
        cases List.mem_singleton.mp hf
        cases hw
        exact Or.inr rfl
      · cases (depotRegistry_answer_bus e).symm.trans hr

/-- **What is handed on may name a record that cannot be reached**, in a schema error and in a
generation error. -/
theorem raised_errors_name_others :
    (∀ e, (depotRegistry e).Reached ∧ ¬ Reachable (depotRegistry e).answer "Depot" "Yard") ∧
      (∃ r', (Schema.ofRecord true "Depot").run
          (depotRegistry (.schema "Yard" none (.nameTaken "Gate"))) =
        (.error (.schema "Yard" none (.nameTaken "Gate")), r')) ∧
      Settings.Valid {} ∧
      ∃ t : GeneratorState SplitMix, (drawInstance {} "Depot" []).run
          ⟨depotRegistry (.generation "Yard" none .unknownOverride), ⟨[], 0⟩⟩ =
        (.error (.error (.generation "Yard" none .unknownOverride)), t) := by
  refine ⟨fun e => ⟨.new _, fun h => ?_⟩, ⟨_, by with_unfolding_all rfl⟩, Settings.default_valid,
    ⟨_, by with_unfolding_all rfl⟩⟩
  rcases eq_of_depot_reachable h with heq | heq <;> simp at heq

end RecordModel
