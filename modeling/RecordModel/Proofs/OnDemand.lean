/-
**Records on demand.**

The records of a model can be declared in a registry at once, or the model can be the provider of a
registry that keeps a record when it is asked for it.  The two registries cannot be told apart by
asking for records, making schemas and drawing instances, whatever each of them was asked before.

All of these depend on the answers of a registry alone and change none of them.  So it is enough
that the two registries start with the same answers, which they do because a model declares every
name once.

Main definitions:

* `Question`, `Reply`, `Question.ask` — what can be asked of a registry;
* `Registry.Asked` — the registries that come about by asking.

Main results:

* `Question.ask_agree` — a reply depends on the answers alone;
* `Model.names_nodup` — a model declares every name once;
* `Model.answer_of_declareAll` — declared records are answered as the provider would;
* `Model.onDemand_reply_eq` — **declaring records early or on demand makes no difference**.
-/

import RecordModel.Model.Document
import RecordModel.Proofs.Expansions
import RecordModel.Proofs.SameDraws

set_option relaxedAutoImplicit false
set_option autoImplicit false

namespace RecordModel

open Stateful

/-! ### Questions -/

/-- What can be asked of a registry: for a record, for its schema, or for an instance that is drawn
from a source. -/
inductive Question (σ : Type) where
  | fetch (name : String)
  | schema (strict : Bool) (name : String)
  | draw (s : Settings) (name : String) (given : List (String × Value)) (source : σ)

/-- What comes back: a value or an error, and for an instance also the state of the source. -/
inductive Reply (σ : Type) where
  | fetch (answer : Except Error Record)
  | schema (answer : Except Error Schema)
  | draw (answer : Except Failure (Instance Value)) (source : σ)

/-- The reply to a question, and the registry after it. -/
def Question.ask {σ : Type} [RandomSource σ] : Question σ → Registry → Reply σ × Registry
  | .fetch name, r =>
      let run := (Registry.fetch name).run r
      (.fetch run.1, run.2)
  | .schema strict name, r =>
      let run := (Schema.ofRecord strict name).run r
      (.schema run.1, run.2)
  | .draw s name given source, r =>
      let run := (drawInstance s name given).run ⟨r, source⟩
      (.draw run.1 run.2.source, run.2.registry)

/-- The registries that come about from one by asking; the sources may be of any kinds. -/
inductive Registry.Asked (start : Registry) : Registry → Prop
  | start : Asked start start
  | ask {r : Registry} {σ : Type} [RandomSource σ] (q : Question σ) :
      Asked start r → Asked start (q.ask r).2

section

variable {σ : Type} [RandomSource σ] {answer : String → Except Error Record}

/-- **A reply depends on the answers alone**, and a question changes none of them. -/
theorem Question.ask_agree (ha : Settled answer) (q : Question σ) {r r' : Registry}
    (h : SameAnswers answer r r') :
    (q.ask r).1 = (q.ask r').1 ∧ SameAnswers answer (q.ask r).2 (q.ask r').2 := by
  cases q with
  | fetch name =>
      obtain ⟨hreply, hafter⟩ := fetch_agree answer name r r' h
      exact ⟨congrArg Reply.fetch hreply, hafter⟩
  | schema strict name =>
      obtain ⟨hreply, hafter⟩ := Schema.ofRecord_agree ha strict name r r' h
      exact ⟨congrArg Reply.schema hreply, hafter⟩
  | draw s name given source =>
      obtain ⟨hreply, hafter, hsource⟩ :=
        drawInstance_agree ha s name given ⟨r, source⟩ ⟨r', source⟩ ⟨h, rfl⟩
      refine ⟨?_, hafter⟩
      simp only [ask, hreply, hsource]

end

/-- Asking changes no answer. -/
theorem Registry.Asked.answer_eq {start r : Registry} (hs : Settled start.answer)
    (h : Registry.Asked start r) : r.answer = start.answer := by
  induction h with
  | start => rfl
  | ask q _ ih => exact (q.ask_agree hs ⟨ih, ih⟩).2.1

/-! ### Models -/

namespace Document

/-- The names of written records are distinct, and none of them was seen before. -/
theorem recordsOf_nodup {seen : List String} {index : Nat} {items : List Json}
    {records : List WrittenRecord} (h : recordsOf seen index items = .ok records) :
    (records.map (·.declaration.name)).Nodup ∧ ∀ r ∈ records, r.declaration.name ∉ seen := by
  induction items generalizing seen index records with
  | nil =>
      cases h
      simp
  | cons j rest ih =>
      rw [recordsOf] at h
      obtain ⟨record, -, h⟩ := exists_of_bind_eq_ok h
      split at h
      · cases h
      · rename_i hseen
        obtain ⟨others, hothers, h⟩ := exists_of_bind_eq_ok h
        cases h
        obtain ⟨hnodup, hfresh⟩ := ih hothers
        refine ⟨List.nodup_cons.mpr ⟨fun hmem => ?_, hnodup⟩, fun r hr => ?_⟩
        · obtain ⟨r, hr, hname⟩ := List.mem_map.mp hmem
          exact hfresh r hr (hname ▸ List.mem_cons_self ..)
        · rcases List.mem_cons.mp hr with rfl | hr
          · exact hseen
          · exact fun hmem => hfresh r hr (List.mem_cons_of_mem _ hmem)

/-- Defaults change no name. -/
theorem names_declarationsOf {records : List DeclaredRecord} {written : List WrittenRecord}
    {declared : List DeclaredRecord} (h : declarationsOf records written = .ok declared) :
    declared.map (·.name) = written.map (·.declaration.name) := by
  induction written generalizing declared with
  | nil =>
      cases h
      rfl
  | cons r rest ih =>
      rw [declarationsOf] at h
      obtain ⟨fields, -, h⟩ := exists_of_bind_eq_ok h
      obtain ⟨others, hothers, h⟩ := exists_of_bind_eq_ok h
      cases h
      simp [ih hothers]

/-- The records of a document have distinct names. -/
theorem contents_nodup {document : Json} {written : List WrittenRecord}
    (h : contents document = .ok written) : (written.map (·.declaration.name)).Nodup := by
  unfold contents at h
  split at h
  · split at h
    · exact (recordsOf_nodup h).1
    · cases h
    · cases h
  · cases h

end Document

namespace Model

/-- A model holds the records of its document, with their defaults. -/
theorem exists_contents_of_ofJson {document : Json} {m : Model} (h : ofJson document = .ok m) :
    ∃ written, Document.contents document = .ok written ∧
      Document.declarationsOf (written.map (·.declaration)) written = .ok m.records := by
  unfold ofJson at h
  obtain ⟨written, hwritten, h⟩ := exists_of_bind_eq_ok h
  obtain ⟨declared, hdeclared, h⟩ := exists_of_bind_eq_ok h
  cases h
  refine ⟨written, ?_, hdeclared⟩
  unfold Document.lift at hwritten
  cases hc : Document.contents document with
  | error e =>
      rw [hc] at hwritten
      cases hwritten
  | ok records =>
      rw [hc] at hwritten
      cases hwritten
      rfl

/-- **A model declares every name once.** -/
theorem names_nodup {document : Json} {m : Model} (h : ofJson document = .ok m) :
    m.names.Nodup := by
  obtain ⟨written, hcontents, hdeclared⟩ := exists_contents_of_ofJson h
  rw [names, Document.names_declarationsOf hdeclared]
  exact Document.contents_nodup hcontents

end Model

namespace Registry

theorem answer_store (r : Registry) (name other : String) (record : Record) :
    (r.store name record).answer other = if name = other then .ok record else r.answer other := by
  by_cases h : name = other
  · simp [answer, get?_store, h]
  · simp only [answer, get?_store, if_neg h]
    rfl

theorem declare_run_of_new {d : DeclaredRecord} {record : Record} {r : Registry}
    (hd : Record.ofDeclaration d = .ok record) (hnew : r.get? d.name = none) :
    (declare d).run r = (.ok (record, .added), r.store d.name record) := by
  rw [← Record.name_of_ofDeclaration hd] at hnew ⊢
  simp [declare, ExceptT.run, ExceptT.mk, hd, hnew]

theorem declare_run_of_error {d : DeclaredRecord} {e : Error} {r : Registry}
    (hd : Record.ofDeclaration d = .error e) : (declare d).run r = (.error e, r) := by
  simp [declare, ExceptT.run, ExceptT.mk, hd]

/-- **Declared records are answered by their declarations**: when the names are new and distinct,
every name that is declared has the record of its declaration, and any other one what it had
before. -/
theorem answer_of_declareAll {declarations : List DeclaredRecord} {r r' : Registry}
    (hd : (declarations.map (·.name)).Nodup) (hnew : ∀ d ∈ declarations, r.get? d.name = none)
    (hrun : (declareAll declarations).run r = (.ok (), r')) (name : String) :
    r'.answer name = match Keyed.get? name (declarations.map fun d => (d.name, d)) with
      | some d => Record.ofDeclaration d
      | none => r.answer name := by
  induction declarations generalizing r with
  | nil =>
      cases hrun
      rfl
  | cons d rest ih =>
      rw [declareAll] at hrun
      obtain ⟨_, u, hdeclare, hrun⟩ := run_bind_eq_ok.mp hrun
      obtain ⟨hfirst, hdistinct⟩ := List.nodup_cons.mp hd
      cases hrecord : Record.ofDeclaration d with
      | error e =>
          rw [declare_run_of_error hrecord] at hdeclare
          cases hdeclare
      | ok record =>
          rw [declare_run_of_new hrecord (hnew d (List.mem_cons_self ..))] at hdeclare
          cases hdeclare
          have hothers : ∀ d' ∈ rest, (r.store d.name record).get? d'.name = none := by
            intro d' hd'
            have hne : d.name ≠ d'.name := fun h =>
              hfirst (List.mem_map.mpr ⟨d', hd', h.symm⟩)
            rw [get?_store, if_neg hne]
            exact hnew d' (List.mem_cons_of_mem _ hd')
          rw [ih hdistinct hothers hrun, List.map_cons, Keyed.get?_cons, answer_store]
          by_cases hname : d.name = name
          · -- no later declaration bears the name
            have hnone : Keyed.get? name (rest.map fun d => (d.name, d)) = none := by
              rw [Keyed.get?_eq_none_iff, ← hname, Keyed.keys, List.map_map]
              exact hfirst
            rw [hnone, if_pos hname, if_pos hname]
            exact hrecord.symm
          · rw [if_neg hname, if_neg hname]

/-- A provider of declarations answers a name with the record of its declaration. -/
theorem answer_ofDeclarations (declarations : List DeclaredRecord) (name : String) :
    (ofProvider (Provider.ofDeclarations declarations)).answer name =
      match Keyed.get? name (declarations.map fun d => (d.name, d)) with
      | some d => Record.ofDeclaration d
      | none => empty.answer name := by
  have hdeclaration : (Provider.ofDeclarations declarations).declaration name =
      .ok (Keyed.get? name (declarations.map fun d => (d.name, d))) := rfl
  change (Provider.ofDeclarations declarations).record name = _
  rw [Provider.record, hdeclaration]
  cases hd : Keyed.get? name (declarations.map fun d => (d.name, d)) with
  | none => rfl
  | some d =>
      obtain ⟨d', -, hentry⟩ := List.mem_map.mp (Keyed.mem_of_get? hd)
      cases hentry
      exact if_pos rfl

end Registry

namespace Model

/-- **Declared records are answered as the provider would.** -/
theorem answer_of_declareAll {document : Json} {m : Model} (hm : ofJson document = .ok m)
    {r : Registry} (hrun : m.declareAll.run Registry.empty = (.ok (), r)) :
    r.answer = (Registry.ofProvider m.provider).answer := by
  funext name
  rw [provider, Registry.answer_ofDeclarations]
  exact Registry.answer_of_declareAll (names_nodup hm) (fun _ _ => rfl) hrun name

/-- **Declaring records early or on demand makes no difference.**  When the records of a model can
all be declared, any question gets the same reply from a registry that holds them as from one that
takes them from the model, whatever the two were asked before. -/
theorem onDemand_reply_eq {document : Json} {m : Model} (hm : ofJson document = .ok m)
    {declared : Registry} (hrun : m.declareAll.run Registry.empty = (.ok (), declared))
    {r r' : Registry} (hr : Registry.Asked (Registry.ofProvider m.provider) r)
    (hr' : Registry.Asked declared r') {σ : Type} [RandomSource σ] (q : Question σ) :
    (q.ask r).1 = (q.ask r').1 := by
  have hsettled : Settled (Registry.ofProvider m.provider).answer :=
    (Registry.Reached.new (some m.provider)).settled
  have hdeclared := answer_of_declareAll hm hrun
  have hanswer := hr.answer_eq hsettled
  have hanswer' := (hr'.answer_eq (hdeclared ▸ hsettled)).trans hdeclared
  exact (q.ask_agree hsettled ⟨hanswer, hanswer'⟩).1

/-- Teams and users, which refer to each other. -/
def ofTeams : Model :=
  ⟨[⟨"Team", none, none, [],
      [⟨"lead", .optional (.record "User"), none, ⟨none, none, none, none, none, []⟩⟩]⟩,
    ⟨"User", none, none, [],
      [⟨"team", .record "Team", none, ⟨none, none, none, none, none, []⟩⟩]⟩]⟩

/-- The document that they are written in. -/
def teamDocument : Json :=
  .object [("records", .array [
    .object [("name", .string "Team"), ("fields", .array [
      .object [("name", .string "lead"), ("type", .object [("optional", .string "User")])]])],
    .object [("name", .string "User"), ("fields", .array [
      .object [("name", .string "team"), ("type", .string "Team")]])]])]

theorem ofTeams_reply_eq :
    ofJson teamDocument = .ok ofTeams ∧
      ∃ declared, ofTeams.declareAll.run Registry.empty = (.ok (), declared) ∧
        let asked := ((Question.fetch "User" : Question SplitMix).ask
          (Registry.ofProvider ofTeams.provider)).2
        let question : Question SplitMix := .draw {} "Team" [] ⟨[], 7⟩
        (question.ask asked).1 = (question.ask declared).1 := by
  have hm : ofJson teamDocument = .ok ofTeams := by with_unfolding_all rfl
  have hrun : ∃ declared, ofTeams.declareAll.run Registry.empty = (.ok (), declared) :=
    ⟨_, by with_unfolding_all rfl⟩
  obtain ⟨declared, hdeclared⟩ := hrun
  exact ⟨hm, declared, hdeclared,
    onDemand_reply_eq hm hdeclared (.ask (Question.fetch "User") .start) .start _⟩

end Model

end RecordModel
