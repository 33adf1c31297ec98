/-
**Documents in another order.**

A document can list its records in another order, and the members of any object in it can be written
in another order.  Its model is the same but for the order of the records.  Records refer to each
other by their names, and defaults are converted when all records are known, so the order of the
records plays no part in what is converted; and a map keeps the entries of a default in the order of
their keys, however they are written.

There is one exception.  Where a day number breaks a conversion down, the entries and the records
behind it are not looked at.  A document with such a default may break down in one order, and be
refused or even read in another one.

Main definitions:

* `Document.Permuted` — documents that differ in the order of records and of members;
* `Model.ListedIn` — a model lists the names of a document in order, once each.

Main results:

* `Document.contents_parallel` — the same records are written in both documents;
* `Document.declarationsOf_agree` — their defaults agree;
* `Model.listedIn_of_ofJson` — a model lists the names of its document;
* `Model.ofJson_permuted` — **the models of documents in another order hold the same records**;
* `Model.order_matters` — **a default that breaks down makes the order matter**.
-/

import RecordModel.Proofs.WrittenAlike
import RecordModel.Proofs.WrittenNames

set_option relaxedAutoImplicit false
set_option autoImplicit false

namespace RecordModel

open Json (Reordered)

namespace Document

open Conversion (Agree outcome outcome_bind outcome_map)

/-! ### Documents in another order -/

/-- The documents differ in the order of the records and in the order of the members of objects at
any depth: their values are alike, except that the items of the member `records` may also come in
another order. -/
inductive Permuted : Json → Json → Prop
  | members {d d' : Json} : d.Alike (· = ·) d' → Permuted d d'
  | records {ms ms' : List (String × Json)} {items mid items' : List Json} :
      (Keyed.keys ms).Perm (Keyed.keys ms') →
      (∀ k j j', k ≠ "records" → Keyed.get? k ms = some j → Keyed.get? k ms' = some j' →
        j.Alike (· = ·) j') →
      Keyed.get? "records" ms = some (.array items) →
      Keyed.get? "records" ms' = some (.array items') →
      items.Perm mid → (Json.array mid).Alike (· = ·) (.array items') →
      Permuted (.object ms) (.object ms')

/-- **The same records are written in both documents**, in the order that each of them has. -/
theorem contents_parallel {d d' : Json} (hd : d.WellFormed) (h : Permuted d d') :
    Parallel (fun rs rs' => ∃ mid, rs.Perm mid ∧ List.Forall₂ (RecordsAlike Reordered) mid rs')
      (contents d) (contents d') := by
  cases h with
  | members halike =>
      cases (Reordered.mk hd halike).shaped with
      | @object ms ms' _ hvalues =>
          rw [contents, contents]
          have hvalue := hvalues "records"
          generalize Keyed.get? "records" ms = value at hvalue
          generalize Keyed.get? "records" ms' = value' at hvalue
          cases hvalue with
          | none => exact .failed _ _
          | some hrecords =>
              cases hrecords.shaped with
              | array hitems => exact recordsOf_parallel Reordered.shaped (.refl _) hitems
              | _ => exact .failed _ _
      | _ => exact .failed _ _
  | @records ms ms' items mid items' _ _ hitems hitems' hperm halike =>
      have hwell : ∀ j ∈ items, j.WellFormed :=
        Json.wellFormedItems_iff.mp
          (Json.wellFormedMembers_iff.mp hd.2 ("records", .array items) (Keyed.mem_of_get? hitems))
      obtain ⟨_, heq, hmid⟩ := Json.alike_array_iff.mp halike
      cases heq
      rw [contents, contents, hitems, hitems']
      refine recordsOf_parallel Reordered.shaped hperm (forall₂_imp_of_mem hmid fun j hj j' _ h => ?_)
      exact ⟨hwell j (hperm.mem_iff.mpr hj), h⟩

/-! ### Defaults -/

/-- A record among others with distinct names is found under its own. -/
theorem find?_eq_some_iff {records : List DeclaredRecord} (hnodup : (records.map (·.name)).Nodup)
    {name : String} {d : DeclaredRecord} :
    records.find? (·.name = name) = some d ↔ d ∈ records ∧ d.name = name := by
  constructor
  · intro h
    exact ⟨List.mem_of_find?_eq_some h, by simpa using List.find?_some h⟩
  · rintro ⟨hd, rfl⟩
    cases hfound : records.find? (·.name = d.name) with
    | none => exact absurd (List.find?_eq_none.mp hfound d hd) (by simp)
    | some d' =>
        have hname : d'.name = d.name := by simpa using List.find?_some hfound
        rw [List.inj_on_of_nodup_map hnodup (List.mem_of_find?_eq_some hfound) hd hname]

theorem find?_eq_of_perm {records records' : List DeclaredRecord} (hperm : records.Perm records')
    (hnodup : (records.map (·.name)).Nodup) (name : String) :
    records.find? (·.name = name) = records'.find? (·.name = name) := by
  have hnodup' : (records'.map (·.name)).Nodup := (hperm.map _).nodup_iff.mp hnodup
  ext d
  rw [find?_eq_some_iff hnodup, find?_eq_some_iff hnodup', hperm.mem_iff]

theorem defaultOf_of_ne_null (records : List DeclaredRecord) (record : String)
    (field : DeclaredField) {j : Json} (h : j ≠ .null) :
    defaultOf records record field (some j) = (some ∘ DeclaredDefault.value) <$>
      Conversion.convert records record j field.type (.value record field.name) := by
  cases j with
  | null => exact absurd rfl h
  | _ => rfl

section

variable {records records' : List DeclaredRecord}
  (hrecords : ∀ name, records.find? (·.name = name) = records'.find? (·.name = name))

include hrecords

theorem defaultOf_agree (record : String) (field : DeclaredField) {w w' : Option Json}
    (h : Option.Rel Reordered w w') :
    Agree (· = ·) (outcome (defaultOf records record field w))
      (outcome (defaultOf records' record field w')) := by
  cases h with
  | none => exact .refl
  | @some j j' hj =>
      by_cases hnull : j = .null
      · subst hnull
        cases hj.shaped
        exact .refl
      have hnull' : j' ≠ .null := by
        rintro rfl
        cases hj.shaped
        exact hnull rfl
      rw [defaultOf_of_ne_null _ _ _ hnull, defaultOf_of_ne_null _ _ _ hnull', outcome_map,
        outcome_map, Conversion.outcome_convert_eq_made,
        Conversion.outcome_convert_eq_made]
      exact (Conversion.made_agree hrecords hj).map fun v v' _ _ hv => by rw [hv]

theorem withDefaults_agree (record : String) (fields : List DeclaredField)
    {ws ws' : List (Option Json)} (h : List.Forall₂ (Option.Rel Reordered) ws ws') :
    Agree (· = ·) (outcome (withDefaults records record fields ws))
      (outcome (withDefaults records' record fields ws')) := by
  induction fields generalizing ws ws' with
  | nil => cases h <;> exact .refl
  | cons field fields ih =>
      cases h with
      | nil => exact .refl
      | cons hw hws =>
          rw [withDefaults, withDefaults, outcome_bind, outcome_bind]
          refine (defaultOf_agree hrecords record field hw).bind ?_
          rintro default _ rfl
          rw [outcome_bind, outcome_bind]
          refine (ih hws).bind ?_
          rintro rest _ rfl
          exact .refl

omit hrecords in
/-- The record with the defaults that are written for its fields. -/
def completed (records : List DeclaredRecord) (r : WrittenRecord) :
    Except Failure DeclaredRecord :=
  ({ r.declaration with fields := · }) <$>
    withDefaults records r.declaration.name r.declaration.fields r.defaults

theorem completed_agree {r r' : WrittenRecord} (h : RecordsAlike Reordered r r') :
    Agree (· = ·) (outcome (completed records r)) (outcome (completed records' r')) := by
  rw [completed, completed, outcome_map, outcome_map, h.declaration]
  refine (withDefaults_agree hrecords _ _ h.defaults).map ?_
  rintro fields _ - - rfl
  rfl

omit hrecords in
theorem declarationsOf_eq_mapM (rs : List WrittenRecord) :
    declarationsOf records rs = rs.mapM (completed records) := by
  induction rs with
  | nil => rfl
  | cons r rs ih =>
      rw [declarationsOf, List.mapM_cons, ih, completed]
      cases withDefaults records r.declaration.name r.declaration.fields r.defaults <;> rfl

/-- **The defaults of records that are written alike and in another order agree.** -/
theorem declarationsOf_agree {rs mid rs' : List WrittenRecord} (hperm : rs.Perm mid)
    (h : List.Forall₂ (RecordsAlike Reordered) mid rs') :
    Agree List.Perm (outcome (declarationsOf records rs))
      (outcome (declarationsOf records' rs')) := by
  rw [declarationsOf_eq_mapM, declarationsOf_eq_mapM, Conversion.outcome_mapM,
    Conversion.outcome_mapM]
  refine (Agree.mapM_perm hperm (h.imp fun _ _ hr => completed_agree hrecords hr)).imp ?_
  rintro ds ds' ⟨mid, hperm, hmid⟩
  rw [List.forall₂_eq_eq_eq] at hmid
  exact hmid ▸ hperm

end

/-- The name of a record is a text of what is written for it, and is not empty. -/
theorem name_of_recordOf {i : Nat} {j : Json} {r : WrittenRecord} (h : recordOf i j = .ok r) :
    j.get? "name" = some (.string r.declaration.name) ∧ r.declaration.name ≠ "" := by
  cases j with
  | object ms =>
      rw [recordOf] at h
      obtain ⟨name, hname, h⟩ := exists_of_bind_eq_ok h
      obtain ⟨hvalue, hne⟩ : Keyed.get? "name" ms = some (.string name) ∧ name ≠ "" := by
        rw [requiredString] at hname
        split at hname
        · cases hname
        · rename_i s hs
          split at hname
          · cases hname
          · rename_i hempty
            cases hname
            exact ⟨hs, fun hs => hempty (by rw [hs]; rfl)⟩
        · cases hname
      dsimp only at h
      split at h
      · obtain ⟨_, -, h⟩ := exists_of_bind_eq_ok h
        obtain ⟨_, -, h⟩ := exists_of_bind_eq_ok h
        obtain ⟨_, -, h⟩ := exists_of_bind_eq_ok h
        obtain ⟨_, -, h⟩ := exists_of_bind_eq_ok h
        obtain ⟨_, -, h⟩ := exists_of_bind_eq_ok h
        cases h
        exact ⟨hvalue, hne⟩
      · cases h
      · cases h
  | _ => cases h

end Document

namespace Model

open Conversion (Agree outcome)
open Document

/-! ### Models -/

/-- The model lists the names of the records that the document lists, in that order, and they are
distinct and not empty. -/
structure ListedIn (m : Model) (document : Json) : Prop where
  inOrder : List.Forall₂ (fun j name => j.get? "name" = some (.string name))
    (document.items "records") m.names
  nodup : m.names.Nodup
  nonempty : ∀ name ∈ m.names, name ≠ ""

/-- **A model lists the names of its document.** -/
theorem listedIn_of_ofJson {document : Json} {m : Model} (h : ofJson document = .ok m) :
    m.ListedIn document := by
  obtain ⟨rs, hcontents, hdeclared⟩ := exists_contents_of_ofJson h
  have hnames : m.names = rs.map (·.declaration.name) := names_declarationsOf hdeclared
  obtain ⟨items, hitems, hread⟩ : ∃ items, document.items "records" = items ∧
      List.Forall₂ (fun j r => recordOf 0 j = .ok r) items rs := by
    unfold contents at hcontents
    split at hcontents
    · rename_i ms
      split at hcontents
      · rename_i items hitems
        refine ⟨items, ?_, Conversion.mapM_eq_ok_iff.mp (recordsOf_eq_ok_iff.mp hcontents).1⟩
        rw [Json.items, Json.get?, hitems]
      · cases hcontents
      · cases hcontents
    · cases hcontents
  refine ⟨?_, names_nodup h, ?_⟩
  · rw [hitems, hnames, List.forall₂_map_right_iff]
    exact hread.imp fun _ _ hr => (name_of_recordOf hr).1
  · rw [hnames, List.forall_mem_map]
    intro r hr
    obtain ⟨j, -, hj⟩ := exists_left_of_forall₂ hread hr
    exact (name_of_recordOf hj).2

/-- What becomes of documents in another order agrees. -/
theorem ofJson_agree {d d' : Json} (hd : d.WellFormed) (h : Permuted d d') :
    Agree (fun m m' : Model => m.records.Perm m'.records) (outcome (ofJson d))
      (outcome (ofJson d')) := by
  have hcontents := contents_parallel hd h
  rw [ofJson, ofJson]
  cases hleft : contents d with
  | error e =>
      rw [hleft] at hcontents
      generalize contents d' = y at hcontents ⊢
      cases hcontents
      exact .refused
  | ok rs =>
      rw [hleft] at hcontents
      generalize contents d' = y at hcontents ⊢
      cases hcontents with
      | @read _ rs' halike =>
          obtain ⟨mid, hperm, hmid⟩ := halike
          have hdeclarations : mid.map (·.declaration) = rs'.map (·.declaration) := by
            rw [← List.forall₂_eq_eq_eq, List.forall₂_map_left_iff, List.forall₂_map_right_iff]
            exact hmid.imp fun _ _ hr => hr.declaration
          have hperm' : (rs.map (·.declaration)).Perm (rs'.map (·.declaration)) :=
            hdeclarations ▸ hperm.map WrittenRecord.declaration
          have hfound := find?_eq_of_perm hperm' <| by
            rw [List.map_map]
            exact contents_nodup hleft
          have hagree := declarationsOf_agree hfound hperm hmid
          change Agree _ (outcome (Model.mk <$> declarationsOf _ rs))
            (outcome (Model.mk <$> declarationsOf _ rs'))
          rw [Conversion.outcome_map, Conversion.outcome_map]
          exact hagree.map fun _ _ _ _ h => h

/-- **The models of documents in another order hold the same records.**  Unless one of the documents
alone breaks down, there is a model of one exactly when there is one of the other, and the two hold
the same records under all names.  Each of them lists the names of its own document in order. -/
theorem ofJson_permuted {d d' : Json} (hd : d.WellFormed) (h : Permuted d d')
    (hfar : DefaultMeetsFarDay d ↔ DefaultMeetsFarDay d') :
    ((∃ m, ofJson d = .ok m) ↔ ∃ m', ofJson d' = .ok m') ∧
      ∀ m m', ofJson d = .ok m → ofJson d' = .ok m' →
        (∀ name, m.record? name = m'.record? name) ∧ m.ListedIn d ∧ m'.ListedIn d' := by
  have hagree := ofJson_agree hd h
  refine ⟨?_, fun m m' hm hm' => ⟨fun name => ?_, listedIn_of_ofJson hm, listedIn_of_ofJson hm'⟩⟩
  · by_cases hbroken : DefaultMeetsFarDay d
    · have hleft : ofJson d = .error (.breakdown .dayNumber) :=
        ofJson_breakdown_iff.mpr ⟨rfl, hbroken⟩
      have hright : ofJson d' = .error (.breakdown .dayNumber) :=
        ofJson_breakdown_iff.mpr ⟨rfl, hfar.mp hbroken⟩
      rw [hleft, hright]
    · have hunbroken {d : Json} (hd : ¬ DefaultMeetsFarDay d) (b : Breakdown) :
          outcome (ofJson d) ≠ .error (some b) := fun hb =>
        hd (ofJson_breakdown_iff.mp (Conversion.outcome_eq_breakdown_iff.mp hb)).2
      have hiff := hagree.exists_ok_iff (hunbroken hbroken) (hunbroken (hfar.not.mp hbroken))
      simpa only [Conversion.outcome_eq_ok_iff] using hiff
  · rw [hm, hm'] at hagree
    cases hagree with
    | made hperm => exact find?_eq_of_perm hperm (names_nodup hm) name

/-- A number and a truth value, the number first. -/
def numberFirst (n : Int) : Json := .object [("a", .integer n), ("b", .boolean true)]

/-- A number and a truth value, the truth value first. -/
def truthFirst (n : Int) : Json := .object [("b", .boolean true), ("a", .integer n)]

/-- A record with a map of days, or else of numbers and truth values, for which a default is
written. -/
def logJson (default : Json) : Json :=
  .object [("name", .string "Log"), ("fields", .array [.object [("name", .string "days"),
    ("type", .object [("union", .array [.object [("map", .string "date")],
      .object [("map", .object [("union", .array [.string "int64", .string "boolean"])])]])]),
    ("default", default)]])]

/-- A document with this record and another one. -/
def logDocument (n : Int) : Json :=
  .object [("records", .array [logJson (numberFirst n),
    .object [("name", .string "Stop"), ("fields", .array [])]])]

/-- The document in another order. -/
def stopDocument (n : Int) : Json :=
  .object [("records", .array [.object [("fields", .array []), ("name", .string "Stop")],
    logJson (truthFirst n)])]

theorem wellFormed_logDocument (n : Int) : (logDocument n).WellFormed := by
  simp [logDocument, logJson, numberFirst, Json.WellFormed, Json.WellFormedItems,
    Json.WellFormedMembers, Keyed.keys]

theorem permuted_logDocument (n : Int) : Permuted (logDocument n) (stopDocument n) := by
  have halike := Json.comparison_alike (· = ·)
  have hdefault : (numberFirst n).Alike (· = ·) (truthFirst n) :=
    .of_perm (.swap _ _ _) (by simp [Keyed.keys])
  have hstop : (Json.object [("name", .string "Stop"), ("fields", .array [])]).Alike (· = ·)
      (.object [("fields", .array []), ("name", .string "Stop")]) :=
    .of_perm (.swap _ _ _) (by simp [Keyed.keys])
  have hlog : (logJson (numberFirst n)).Alike (· = ·) (logJson (truthFirst n)) := by
    refine halike.object (.cons ⟨rfl, .refl _⟩ (.cons ⟨rfl, ?_⟩ .nil))
    refine halike.array.mpr ⟨_, rfl, .cons (halike.object ?_) .nil⟩
    exact .cons ⟨rfl, .refl _⟩ (.cons ⟨rfl, .refl _⟩ (.cons ⟨rfl, hdefault⟩ .nil))
  refine .records (.refl _) (fun k j j' hk hj _ => ?_) rfl rfl (.swap _ _ _)
    (halike.array.mpr ⟨_, rfl, .cons hstop (.cons hlog .nil)⟩)
  cases hj.symm.trans ((Keyed.get?_cons ..).trans (if_neg (Ne.symm hk)))

/-- The types of the values in the map. -/
def loggedType : DeclaredType := .union [.int64, .boolean]

/-- The type of the field. -/
def daysType : DeclaredType := .union [.dict .date, .dict loggedType]

/-- The record, with a default. -/
def ofLog (default : Option DeclaredDefault) : DeclaredRecord :=
  ⟨"Log", none, none, [], [⟨"days", daysType, default, ⟨none, none, none, none, none, []⟩⟩]⟩

/-- The other record. -/
def ofStop : DeclaredRecord := ⟨"Stop", none, none, [], []⟩

section

open Conversion

variable {records : List DeclaredRecord} {n : Int} {i : Int64}

theorem made_date_truth : made records "Log" .date (.boolean true) = .error none :=
  (made_scalar rfl Json.noConfusion).trans rfl

theorem made_logged_truth : made records "Log" loggedType (.boolean true) = .ok (.boolean true) := by
  rw [loggedType, made_union Json.noConfusion]
  change attempt _ _ _ _ [.int64, .boolean] = _
  rw [attempt_cons, outcome_convert_eq_made, made_scalar rfl Json.noConfusion, attempt_singleton,
    outcome_convert_eq_made, made_scalar rfl Json.noConfusion]
  rfl

theorem made_logged_number (h : scalar .int64 (.integer n) = .ok (some (.int64 i))) :
    made records "Log" loggedType (.integer n) = .ok (.int64 i) := by
  rw [loggedType, made_union Json.noConfusion]
  change attempt _ _ _ _ [.int64, .boolean] = _
  rw [attempt_cons, outcome_convert_eq_made, made_scalar rfl Json.noConfusion, madeScalar, h]
  rfl

/-- With the truth value first, there is no day, and the number is taken. -/
theorem made_truthFirst (h : scalar .int64 (.integer n) = .ok (some (.int64 i))) :
    made records "Log" daysType (truthFirst n) =
      .ok (.mapOf [("b", .boolean true), ("a", .int64 i)]) := by
  have hdays : made records "Log" (.dict .date) (truthFirst n) = .error none := by
    rw [truthFirst, made_dict, List.mapM_cons, made_date_truth]
    rfl
  have hlogged : made records "Log" (.dict loggedType) (truthFirst n) =
      .ok (.mapOf [("b", .boolean true), ("a", .int64 i)]) := by
    rw [truthFirst, made_dict, List.mapM_cons, List.mapM_cons, List.mapM_nil,
      made_logged_truth, made_logged_number h]
    rfl
  rw [daysType, made_union Json.noConfusion]
  change attempt _ _ _ _ [.dict .date, .dict loggedType] = _
  rw [attempt_cons, outcome_convert_eq_made, hdays, attempt_singleton, outcome_convert_eq_made,
    hlogged]
  rfl

/-- With the number of a day first, the truth value is refused, and the number is taken. -/
theorem made_numberFirst :
    made records "Log" daysType (numberFirst 1) =
      .ok (.mapOf [("a", .int64 1), ("b", .boolean true)]) := by
  have hdate : made records "Log" .date (.integer 1) = .ok (.date ⟨1, by decide⟩) :=
    (made_scalar rfl Json.noConfusion).trans rfl
  have hdays : made records "Log" (.dict .date) (numberFirst 1) = .error none := by
    rw [numberFirst, made_dict, List.mapM_cons, List.mapM_cons, made_date_truth, hdate]
    rfl
  have hlogged : made records "Log" (.dict loggedType) (numberFirst 1) =
      .ok (.mapOf [("a", .int64 1), ("b", .boolean true)]) := by
    rw [numberFirst, made_dict, List.mapM_cons, List.mapM_cons, List.mapM_nil,
      made_logged_truth, made_logged_number rfl]
    rfl
  rw [daysType, made_union Json.noConfusion]
  change attempt _ _ _ _ [.dict .date, .dict loggedType] = _
  rw [attempt_cons, outcome_convert_eq_made, hdays, attempt_singleton, outcome_convert_eq_made,
    hlogged]
  rfl

/-- What is taken for the field becomes its default. -/
theorem completed_log {raw : Json} {v : Value} (hraw : raw ≠ .null)
    (h : made records "Log" daysType raw = .ok v) :
    completed records ⟨ofLog none, [some raw]⟩ = .ok (ofLog (some (.value v))) := by
  rw [← outcome_convert_eq_made _ _ (.value "Log" "days"), outcome_eq_ok_iff] at h
  rw [completed, ofLog, withDefaults, defaultOf_of_ne_null _ _ _ hraw, h]
  rfl

theorem ofJson_logDocument {v : Value}
    (h : made [ofLog none, ofStop] "Log" daysType (numberFirst n) = .ok v) :
    ofJson (logDocument n) = .ok ⟨[ofLog (some (.value v)), ofStop]⟩ := by
  have hcontents : contents (logDocument n) =
      .ok [⟨ofLog none, [some (numberFirst n)]⟩, ⟨ofStop, []⟩] := by with_unfolding_all rfl
  rw [ofJson, hcontents]
  change Model.mk <$> declarationsOf [ofLog none, ofStop] _ = _
  rw [declarationsOf_eq_mapM, List.mapM_cons, completed_log Json.noConfusion h]
  rfl

theorem ofJson_stopDocument {v : Value}
    (h : made [ofStop, ofLog none] "Log" daysType (truthFirst n) = .ok v) :
    ofJson (stopDocument n) = .ok ⟨[ofStop, ofLog (some (.value v))]⟩ := by
  have hcontents : contents (stopDocument n) =
      .ok [⟨ofStop, []⟩, ⟨ofLog none, [some (truthFirst n)]⟩] := by with_unfolding_all rfl
  rw [ofJson, hcontents]
  change Model.mk <$> declarationsOf [ofStop, ofLog none] _ = _
  rw [declarationsOf_eq_mapM, List.mapM_cons, List.mapM_cons, completed_log Json.noConfusion h]
  rfl

/-- A document that is read is not broken down by a default. -/
theorem not_defaultMeetsFarDay_of_ofJson {d : Json} {m : Model} (h : ofJson d = .ok m) :
    ¬ DefaultMeetsFarDay d := fun hfar => by
  have hbroken := ofJson_breakdown_iff.mpr ⟨rfl, hfar⟩
  cases h.symm.trans hbroken

theorem logDocument_same_records :
    (logDocument 1).WellFormed ∧ Permuted (logDocument 1) (stopDocument 1) ∧
      (DefaultMeetsFarDay (logDocument 1) ↔ DefaultMeetsFarDay (stopDocument 1)) ∧
      ∃ m m', ofJson (logDocument 1) = .ok m ∧ ofJson (stopDocument 1) = .ok m' ∧
        m.names = ["Log", "Stop"] ∧ m'.names = ["Stop", "Log"] ∧
        ∀ name, m.record? name = m'.record? name := by
  have hlog := ofJson_logDocument made_numberFirst
  have hstop := ofJson_stopDocument (made_truthFirst (n := 1) rfl)
  have hfar : DefaultMeetsFarDay (logDocument 1) ↔ DefaultMeetsFarDay (stopDocument 1) :=
    iff_of_false (not_defaultMeetsFarDay_of_ofJson hlog) (not_defaultMeetsFarDay_of_ofJson hstop)
  obtain ⟨-, hrecords⟩ := ofJson_permuted (wellFormed_logDocument 1) (permuted_logDocument 1) hfar
  exact ⟨wellFormed_logDocument 1, permuted_logDocument 1, hfar, _, _, hlog, hstop, rfl, rfl,
    (hrecords _ _ hlog hstop).1⟩

/-- **A default that breaks down makes the order matter.**  With the number of a far day first, the
document breaks down; with the truth value first, which is no day, it is read. -/
theorem order_matters :
    (logDocument 106751991168).WellFormed ∧
      Permuted (logDocument 106751991168) (stopDocument 106751991168) ∧
      ofJson (logDocument 106751991168) = .error (.breakdown .dayNumber) ∧
      ∃ m, ofJson (stopDocument 106751991168) = .ok m := by
  refine ⟨wellFormed_logDocument _, permuted_logDocument _, ofJson_breakdown_iff.mpr ⟨rfl, ?_⟩,
    _, ofJson_stopDocument (made_truthFirst rfl)⟩
  have hfar : FarDay (.integer 106751991168) := ⟨106751991168, rfl, by decide⟩
  have hoffered : offered "Log" (numberFirst 106751991168) [.dict .date, .dict loggedType] =
      [] ++ .dict .date :: [.dict loggedType] := rfl
  have hfirst : numberFirst 106751991168 =
      .object ([] ++ ("a", .integer 106751991168) :: [("b", .boolean true)]) := rfl
  have hdays : MeetsFarDay [ofLog none, ofStop] "Log" (.dict .date) (numberFirst 106751991168) :=
    hfirst ▸ .entry (List.forall_mem_nil _) (.date hfar)
  refine ⟨[⟨ofLog none, [some (numberFirst 106751991168)]⟩, ⟨ofStop, []⟩],
    by with_unfolding_all rfl, [], ⟨"Log", _, numberFirst 106751991168⟩, [], rfl,
    List.forall_mem_nil _, .member hoffered (List.forall_mem_nil _) hdays⟩

end

end Model

end RecordModel
