/-
**The look-ahead as it goes.**

The generator asks whether a type can be generated while it is in the middle of a generation: there
is a chain of records, and a counter of the types around.  The look-ahead pushes records on the very
same chain, and stops looking as soon as it knows enough, or as soon as a record cannot be found,
many records further down.  Here it is written out in this way.  Nothing is known beforehand about
how deep it goes: it gets some levels, and has no outcome where these do not suffice.

Whatever the registry, a look-ahead that ends leaves the chain and the counter as it found them.  It
does end where a type leads to finitely many names: a record stays on the chain while its fields are
looked at, so that there is less and less room for these names.  Its outcome is then the one of the
look-ahead with a bound, which has the chain for an argument.

Where every name has a record the outcome tells whether the type has an end.  More room on the chain
can only help there: fewer records on it, or a higher limit.

Main definitions:

* `Trail`, `LookState` — what a generation has come to, and what the look-ahead works on;
* `lookInto`, `lookAheadF` — one level of the look-ahead, and some levels of it;
* `LooksAhead` — what the look-ahead comes to;
* `OpenRegistry.Says` — what it says, with the chain and the counter as they were;
* `EndsAs` — a look-ahead that ends as a computation on a registry does.

Main results:

* `LooksAhead.unique`, `LooksAhead.trail` — **a look-ahead that ends has one outcome and leaves no
  trace**;
* `generable_endsAs` — **it ends as the look-ahead with a bound does**;
* `Viable.mono` — an end remains where there is more room;
* `OpenRegistry.lookAhead_comes_back` — **what a look-ahead comes to**;
* `endless_never_ends` — where names do not end, a look-ahead may not end either.
-/

import Mathlib.Data.Set.Finite.Basic
import RecordModel.Proofs.OpenRegistries
import RecordModel.Proofs.SelfReference

set_option relaxedAutoImplicit false
set_option autoImplicit false

namespace RecordModel

open Stateful

/-! ### The look-ahead -/

/-- What a generation has come to: the chain of the records that are being generated, the innermost
one first, and the number of types around. -/
structure Trail where
  chain : List String
  depth : Nat

/-- What the look-ahead works on. -/
structure LookState where
  registry : OpenRegistry
  trail : Trail

namespace LookState

/-- Asks the registry for a record. -/
def fetch (s : LookState) (name : String) : Except Error Record × LookState :=
  (s.registry.answer name, { s with registry := s.registry.after (.fetch name) })

/-- Puts a record on the chain. -/
def push (s : LookState) (name : String) : LookState :=
  { s with trail.chain := name :: s.trail.chain }

/-- Takes the last record from the chain. -/
def pop (s : LookState) : LookState := { s with trail.chain := s.trail.chain.tail }

end LookState

/-- Whether something can be generated, or an error, and what there is afterwards; nothing if the
levels do not suffice. -/
abbrev Look := LookState → Option (Except Error Bool × LookState)

/-- Whether all fields can be generated; the first one that cannot, or has an error, is the last one
that is looked at. -/
def everyField (look : Descriptor → Look) : List Field → Look
  | [], s => some (.ok true, s)
  | f :: rest, s => do
      match ← look f.type s with
      | (.ok true, t) => everyField look rest t
      | other => return other

/-- Whether one of some types is null or can be generated; the first one that is, or can be, or has
an error, is the last one that is looked at. -/
def someMember (look : Descriptor → Look) : List Descriptor → Look
  | [], s => some (.ok false, s)
  | m :: rest, s =>
      if m.isNull then some (.ok true, s)
      else do
        match ← look m s with
        | (.ok false, t) => someMember look rest t
        | other => return other

/-- Whether a type can be generated, or the error of a name without a record; `look` looks at the
types within.  A record is taken from the chain behind an error too. -/
def lookInto (limit : Nat) (look : Descriptor → Look) (d : Descriptor) : Look := fun s =>
  match d with
  | .reference name =>
      if atLimit limit s.trail.chain name then some (.ok false, s)
      else
        match s.fetch name with
        | (.error e, t) => some (.error e, t)
        | (.ok record, t) => do
            let (viable, u) ← everyField look record.fields (t.push record.name)
            return (viable, u.pop)
  | .union _ => someMember look d.alternatives s
  | .optional _ => someMember look d.alternatives s
  | _ => some (.ok true, s)

/-- The look-ahead, where so many types may be looked into inside each other. -/
def lookAheadF (limit : Nat) : Nat → Descriptor → Look
  | 0 => fun _ _ => none
  | levels + 1 => lookInto limit (lookAheadF limit levels)

/-- What the look-ahead comes to, with as many levels as it needs. -/
def LooksAhead (limit : Nat) (d : Descriptor) (s : LookState)
    (r : Except Error Bool × LookState) : Prop :=
  ∃ levels, lookAheadF limit levels d s = some r

/-- The look-ahead of a registry says so, and leaves the chain and the counter as they were. -/
def OpenRegistry.Says (o : OpenRegistry) (limit : Nat) (trail : Trail) (d : Descriptor)
    (outcome : Except Error Bool) : Prop :=
  ∃ o', LooksAhead limit d ⟨o, trail⟩ (outcome, ⟨o', trail⟩)

/-! ### What a level comes to -/

section

variable {limit : Nat} {look : Descriptor → Look} {s : LookState}
  {r : Except Error Bool × LookState}

/-- The outcome for some fields is that for the others, where the first one can be generated, or
else that for the first one. -/
theorem everyField_cons_iff {f : Field} {rest : List Field} :
    everyField look (f :: rest) s = some r ↔
      (∃ t, look f.type s = some (.ok true, t) ∧ everyField look rest t = some r) ∨
        look f.type s = some r ∧ r.1 ≠ .ok true := by
  rw [everyField]
  rcases look f.type s with _ | ⟨_ | _ | _, t⟩
  · simp
  all_goals
    obtain ⟨outcome, u⟩ := r
    simp +contextual [eq_comm]

/-- The outcome for some members, the first of which is not null, is that for the others, where the
first one cannot be generated, or else that for the first one. -/
theorem someMember_cons_iff {m : Descriptor} {rest : List Descriptor} (hnull : ¬ m.isNull = true) :
    someMember look (m :: rest) s = some r ↔
      (∃ t, look m s = some (.ok false, t) ∧ someMember look rest t = some r) ∨
        look m s = some r ∧ r.1 ≠ .ok false := by
  rw [someMember, if_neg hnull]
  rcases look m s with _ | ⟨_ | _ | _, t⟩
  · simp
  all_goals
    obtain ⟨outcome, u⟩ := r
    simp +contextual [eq_comm]

/-- Before the limit the outcome for a record is that for its fields, if there is a record. -/
theorem lookInto_reference_iff {name : String}
    (hlimit : ¬ atLimit limit s.trail.chain name = true) :
    lookInto limit look (.reference name) s = some r ↔
      (∃ e, s.registry.answer name = .error e ∧ (.error e, (s.fetch name).2) = r) ∨
        ∃ record viable u, s.registry.answer name = .ok record ∧
          everyField look record.fields ((s.fetch name).2.push record.name) = some (viable, u) ∧
          (viable, u.pop) = r := by
  dsimp only [lookInto, LookState.fetch]
  rw [if_neg hlimit]
  cases s.registry.answer name with
  | error e => simp
  | ok record => simp [Option.bind_eq_some_iff]

end

/-- A type that has an end whatever the chain is not looked into. -/
theorem lookInto_of_isTerminal {d : Descriptor} (hd : d.isTerminal = true) (limit : Nat)
    (look : Descriptor → Look) (s : LookState) : lookInto limit look d s = some (.ok true, s) := by
  cases d with
  | union _ => cases hd
  | reference _ => cases hd
  | optional inner =>
      -- null comes first among the alternatives
      rw [lookInto, Descriptor.alternatives_optional]
      rfl
  | _ => rfl

/-! ### More levels -/

/-- The second look comes to all that the first one comes to. -/
def Extends (look look' : Descriptor → Look) : Prop :=
  ∀ d s r, look d s = some r → look' d s = some r

section

variable {look look' : Descriptor → Look} {s : LookState} {r : Except Error Bool × LookState}

theorem everyField_mono (h : Extends look look') {fields : List Field}
    (hr : everyField look fields s = some r) : everyField look' fields s = some r := by
  induction fields generalizing s with
  | nil => exact hr
  | cons f rest ih =>
      rcases everyField_cons_iff.mp hr with ⟨t, hyes, hrest⟩ | ⟨hlast, hno⟩
      · exact everyField_cons_iff.mpr (.inl ⟨t, h _ _ _ hyes, ih hrest⟩)
      · exact everyField_cons_iff.mpr (.inr ⟨h _ _ _ hlast, hno⟩)

theorem someMember_mono (h : Extends look look') {ms : List Descriptor}
    (hr : someMember look ms s = some r) : someMember look' ms s = some r := by
  induction ms generalizing s with
  | nil => exact hr
  | cons m rest ih =>
      by_cases hnull : m.isNull = true
      · rw [someMember, if_pos hnull] at hr ⊢
        exact hr
      · rcases (someMember_cons_iff hnull).mp hr with ⟨t, hno, hrest⟩ | ⟨hlast, hyes⟩
        · exact (someMember_cons_iff hnull).mpr (.inl ⟨t, h _ _ _ hno, ih hrest⟩)
        · exact (someMember_cons_iff hnull).mpr (.inr ⟨h _ _ _ hlast, hyes⟩)

/-- One level comes to more if the levels below do. -/
theorem lookInto_mono (h : Extends look look') (limit : Nat) :
    Extends (lookInto limit look) (lookInto limit look') := by
  intro d s r hr
  cases d with
  | reference name =>
      by_cases hlimit : atLimit limit s.trail.chain name = true
      · rw [lookInto, if_pos hlimit] at hr ⊢
        exact hr
      · rcases (lookInto_reference_iff hlimit).mp hr with herror | ⟨record, viable, u, ha, hf, hu⟩
        · exact (lookInto_reference_iff hlimit).mpr (.inl herror)
        · exact (lookInto_reference_iff hlimit).mpr
            (.inr ⟨record, viable, u, ha, everyField_mono h hf, hu⟩)
  | union members => exact someMember_mono h hr
  | optional inner => exact someMember_mono h hr
  | _ => exact hr

end

/-- **More levels change no outcome.** -/
theorem lookAheadF_mono {limit levels levels' : Nat} (h : levels ≤ levels') :
    Extends (lookAheadF limit levels) (lookAheadF limit levels') := by
  induction levels generalizing levels' with
  | zero =>
      intro d s r hr
      cases hr
  | succ levels ih =>
      obtain ⟨more, rfl⟩ := Nat.exists_eq_add_of_lt h
      exact lookInto_mono (ih (by omega)) limit

/-- **A look-ahead comes to one end at most.** -/
theorem LooksAhead.unique {limit : Nat} {d : Descriptor} {s : LookState}
    {r r' : Except Error Bool × LookState} (h : LooksAhead limit d s r)
    (h' : LooksAhead limit d s r') : r = r' := by
  obtain ⟨levels, hr⟩ := h
  obtain ⟨levels', hr'⟩ := h'
  have hmore := lookAheadF_mono (Nat.le_max_left levels levels') d s r hr
  have hmore' := lookAheadF_mono (Nat.le_max_right levels levels') d s r' hr'
  exact Option.some.inj (hmore.symm.trans hmore')

/-! ### No trace is left -/

/-- A look that ends leaves the chain and the counter as they were. -/
def Traceless (look : Descriptor → Look) : Prop :=
  ∀ d s r, look d s = some r → r.2.trail = s.trail

section

variable {look : Descriptor → Look} {s : LookState} {r : Except Error Bool × LookState}

theorem Traceless.everyField (h : Traceless look) {fields : List Field}
    (hr : everyField look fields s = some r) : r.2.trail = s.trail := by
  induction fields generalizing s with
  | nil =>
      cases hr
      rfl
  | cons f rest ih =>
      rcases everyField_cons_iff.mp hr with ⟨t, hyes, hrest⟩ | ⟨hlast, -⟩
      · exact (ih hrest).trans (h _ _ _ hyes)
      · exact h _ _ _ hlast

theorem Traceless.someMember (h : Traceless look) {ms : List Descriptor}
    (hr : someMember look ms s = some r) : r.2.trail = s.trail := by
  induction ms generalizing s with
  | nil =>
      cases hr
      rfl
  | cons m rest ih =>
      by_cases hnull : m.isNull = true
      · rw [RecordModel.someMember, if_pos hnull] at hr
        cases hr
        rfl
      · rcases (someMember_cons_iff hnull).mp hr with ⟨t, hno, hrest⟩ | ⟨hlast, -⟩
        · exact (ih hrest).trans (h _ _ _ hno)
        · exact h _ _ _ hlast

/-- One level takes from the chain what it has put there, behind an error too. -/
theorem Traceless.lookInto (h : Traceless look) (limit : Nat) :
    Traceless (lookInto limit look) := by
  intro d s r hr
  cases d with
  | reference name =>
      by_cases hlimit : atLimit limit s.trail.chain name = true
      · rw [RecordModel.lookInto, if_pos hlimit] at hr
        cases hr
        rfl
      · rcases (lookInto_reference_iff hlimit).mp hr with
          ⟨e, -, rfl⟩ | ⟨record, viable, u, -, hfields, rfl⟩
        · rfl
        · have hu : u.trail = ⟨record.name :: s.trail.chain, s.trail.depth⟩ :=
            h.everyField hfields
          rw [LookState.pop, hu]
          rfl
  | union members => exact h.someMember hr
  | optional inner => exact h.someMember hr
  | _ =>
      cases hr
      rfl

end

theorem lookAheadF_traceless (limit levels : Nat) : Traceless (lookAheadF limit levels) := by
  induction levels with
  | zero =>
      intro d s r hr
      cases hr
  | succ levels ih => exact ih.lookInto limit

/-- **A look-ahead that ends leaves no trace**: the chain and the counter are as they were, whatever
its outcome. -/
theorem LooksAhead.trail {limit : Nat} {d : Descriptor} {s : LookState}
    {r : Except Error Bool × LookState} (h : LooksAhead limit d s r) : r.2.trail = s.trail := by
  obtain ⟨levels, hr⟩ := h
  exact lookAheadF_traceless limit levels d s r hr

/-! ### An end like that of a computation -/

/-- With this trail the look-ahead ends, if there are levels enough, as the computation does on a
registry that behaves like the open one as far as the names go; the registries stay alike. -/
def EndsAs (names : String → Prop) (answer : String → Except Error Record) (trail : Trail)
    (look : Nat → Look) (m : RegistryM Bool) : Prop :=
  ∀ r s, r.Covers names s.registry → Answers answer r → s.trail = trail →
    ∃ levels t, look levels s = some ((m.run r).1, t) ∧ (m.run r).2.Covers names t.registry ∧
      Answers answer (m.run r).2

section

variable {names : String → Prop} {answer : String → Except Error Record} {trail : Trail}
  {limit : Nat} {ofRecord : String → RegistryM Bool}

protected theorem EndsAs.pure {look : Nat → Look} {b : Bool}
    (h : ∀ s, look 1 s = some (.ok b, s)) : EndsAs names answer trail look (pure b) :=
  fun _ s hr ha _ => ⟨1, s, h s, hr, ha⟩

/-- The members of a union are looked at as the computation does it, if each of them is. -/
theorem someMember_endsAs {ms : List Descriptor}
    (h : ∀ m ∈ ms, EndsAs names answer trail (lookAheadF limit · m) (generableWith ofRecord m)) :
    EndsAs names answer trail (fun levels => someMember (lookAheadF limit levels) ms)
      (anyGenerableWith ofRecord ms) := by
  induction ms with
  | nil =>
      rw [anyGenerableWith]
      exact .pure fun s => rfl
  | cons m rest ih =>
      intro r s hr ha hs
      rw [anyGenerableWith]
      by_cases hnull : m.isNull = true
      · rw [if_pos hnull]
        exact ⟨0, s, if_pos hnull, hr, ha⟩
      · rw [if_neg hnull, run_bind]
        obtain ⟨levels, t, hlook, ht, hat⟩ := h m (List.mem_cons_self ..) r s hr ha hs
        have htrail : t.trail = trail := (LooksAhead.trail ⟨levels, hlook⟩).trans hs
        rcases hrun : (generableWith ofRecord m).run r with ⟨first, r'⟩
        rw [hrun] at hlook ht hat
        rcases first with e | _ | _
        · exact ⟨levels, t, (someMember_cons_iff hnull).mpr (.inr ⟨hlook, by simp⟩), ht, hat⟩
        · obtain ⟨levels', t', hrest, ht', hat'⟩ :=
            ih (fun m hm => h m (List.mem_cons_of_mem _ hm)) r' t ht hat htrail
          have hfirst := lookAheadF_mono (Nat.le_max_left levels levels') _ _ _ hlook
          have hothers := someMember_mono (lookAheadF_mono (Nat.le_max_right levels levels')) hrest
          exact ⟨_, t', (someMember_cons_iff hnull).mpr (.inl ⟨t, hfirst, hothers⟩), ht', hat'⟩
        · exact ⟨levels, t, (someMember_cons_iff hnull).mpr (.inr ⟨hlook, by simp⟩), ht, hat⟩

/-- The fields of a record are looked at as the computation does it, if each of them is. -/
theorem everyField_endsAs {fields : List Field}
    (h : ∀ f ∈ fields,
      EndsAs names answer trail (lookAheadF limit · f.type) (generableWith ofRecord f.type)) :
    EndsAs names answer trail (fun levels => everyField (lookAheadF limit levels) fields)
      (allGenerableWith ofRecord (fields.map (·.type))) := by
  induction fields with
  | nil => exact .pure fun s => rfl
  | cons f rest ih =>
      intro r s hr ha hs
      rw [List.map_cons, allGenerableWith, run_bind]
      obtain ⟨levels, t, hlook, ht, hat⟩ := h f (List.mem_cons_self ..) r s hr ha hs
      have htrail : t.trail = trail := (LooksAhead.trail ⟨levels, hlook⟩).trans hs
      rcases hrun : (generableWith ofRecord f.type).run r with ⟨first, r'⟩
      rw [hrun] at hlook ht hat
      rcases first with e | _ | _
      · exact ⟨levels, t, everyField_cons_iff.mpr (.inr ⟨hlook, by simp⟩), ht, hat⟩
      · exact ⟨levels, t, everyField_cons_iff.mpr (.inr ⟨hlook, by simp⟩), ht, hat⟩
      · obtain ⟨levels', t', hrest, ht', hat'⟩ :=
          ih (fun f hf => h f (List.mem_cons_of_mem _ hf)) r' t ht hat htrail
        have hfirst := lookAheadF_mono (Nat.le_max_left levels levels') _ _ _ hlook
        have hothers := everyField_mono (lookAheadF_mono (Nat.le_max_right levels levels')) hrest
        exact ⟨_, t', everyField_cons_iff.mpr (.inl ⟨t, hfirst, hothers⟩), ht', hat'⟩

/-- A type is looked at as the computation does it, if each reference within it is. -/
theorem lookAheadF_endsAs_of_references (d : Descriptor)
    (h : ∀ name, Descriptor.Within (.reference name) d →
      EndsAs names answer trail (lookAheadF limit · (.reference name)) (ofRecord name)) :
    EndsAs names answer trail (lookAheadF limit · d) (generableWith ofRecord d) := by
  induction d using Descriptor.induction_alternatives with
  | choice d hd ih =>
      cases d with
      | union members =>
          have hm : ∀ m ∈ members,
              EndsAs names answer trail (lookAheadF limit · m) (generableWith ofRecord m) :=
            fun m hm => ih m hm fun name hw => h name (.member hm hw)
          intro r s hr ha hs
          rw [generableWith]
          obtain ⟨levels, t, hlook, hafter⟩ := someMember_endsAs hm r s hr ha hs
          exact ⟨levels + 1, t, hlook, hafter⟩
      | optional inner =>
          rw [generableWith_of_isTerminal rfl]
          exact .pure (lookInto_of_isTerminal rfl limit _)
      | _ => cases hd
  | reference name =>
      rw [generableWith]
      exact h name .refl
  | _ =>
      rw [generableWith_of_isTerminal rfl]
      exact .pure (lookInto_of_isTerminal rfl limit _)

/-- **With enough room left a reference is looked at as with a bound.**  The names lead to no
others. -/
theorem recordGenerableF_endsAs (ha : Settled answer) {known : List String}
    (hk : ∀ n record, answer n = .ok record → n ∈ known)
    (hclosed : ∀ name other, names name → Refers answer name other → names other)
    (budget : Nat) (trail : Trail) {name : String} (hn : names name)
    (hroom : room limit trail.chain known < budget) :
    EndsAs names answer trail (lookAheadF limit · (.reference name))
      (recordGenerableF limit budget trail.chain name) := by
  -- induction on the budget, which stays above the room on the chain
  induction budget generalizing trail name with
  | zero => omega
  | succ budget ih =>
      rintro r s hr hans rfl
      rw [recordGenerableF]
      by_cases hlimit : atLimit limit s.trail.chain name = true
      · rw [if_pos hlimit]
        exact ⟨1, s, if_pos hlimit, hr, hans⟩
      · rw [if_neg hlimit, run_bind, Registry.fetch_run]
        have hc : s.trail.chain.count name < limit := by simpa [atLimit] using hlimit
        obtain ⟨hsame, hafter⟩ := hr.run (.fetch name) hn
        have hans' : Answers answer (r.remember name) := (Registry.answer_fetch r name).trans hans
        cases hrecord : r.answer name with
        | error e =>
            have herror : s.registry.answer name = .error e := hsame.symm.trans hrecord
            have hlook : lookAheadF limit 1 (.reference name) s =
                some (.error e, (s.fetch name).2) :=
              (lookInto_reference_iff hlimit).mpr (.inl ⟨e, herror, rfl⟩)
            exact ⟨1, _, hlook, hafter, hans'⟩
        | ok record =>
            have hok : s.registry.answer name = .ok record := hsame.symm.trans hrecord
            have hanswer : answer name = .ok record := (congrFun hans name).symm.trans hrecord
            obtain rfl : record.name = name := ha.name_eq hanswer
            have hlt := room_cons_lt (hk _ record hanswer) hc
            -- the fields are looked at with the record on the chain
            have hfields : EndsAs names answer ⟨record.name :: s.trail.chain, s.trail.depth⟩
                (fun levels => everyField (lookAheadF limit levels) record.fields)
                (allGenerableWith (recordGenerableF limit budget (record.name :: s.trail.chain))
                  (record.fields.map (·.type))) := by
              refine everyField_endsAs fun f hf => lookAheadF_endsAs_of_references f.type ?_
              intro other hw
              have hother : names other := hclosed _ other hn ⟨record, hanswer, f, hf, hw⟩
              exact ih ⟨record.name :: s.trail.chain, s.trail.depth⟩ hother (by dsimp only; omega)
            obtain ⟨levels, t, hrun, ht, hat⟩ :=
              hfields _ ((s.fetch record.name).2.push record.name) hafter hans' rfl
            have hlook :=
              (lookInto_reference_iff hlimit).mpr (.inr ⟨record, _, t, hok, hrun, rfl⟩)
            exact ⟨levels + 1, t.pop, hlook, ht, hat⟩

/-- A type is looked at as with a bound. -/
theorem generable_endsAs (ha : Settled answer)
    (hclosed : ∀ name other, names name → Refers answer name other → names other)
    (limit : Nat) (trail : Trail) {d : Descriptor} (hd : d.Names names) :
    EndsAs names answer trail (lookAheadF limit · d) (generable limit trail.chain d) := by
  refine lookAheadF_endsAs_of_references d fun name hw r s hr hans hs => ?_
  have hk : ∀ n record, answer n = .ok record → n ∈ r.knownNames := by
    intro n record hn
    exact Registry.mem_knownNames_of_answer ((congrFun hans n).trans hn)
  have hroom := Nat.lt_succ_of_le (room_le limit trail.chain r.knownNames)
  exact recordGenerableF_endsAs ha hk hclosed _ trail (hd name hw) hroom r s hr hans hs

/-- The look-ahead of an open registry is that of one which behaves like it as far as the type
leads, and leaves the chain and the counter as they were. -/
theorem Registry.Covers.looksAhead {r : Registry} {o : OpenRegistry} (h : r.Covers names o)
    (ha : Settled r.answer)
    (hclosed : ∀ name other, names name → Refers r.answer name other → names other)
    {d : Descriptor} (hd : d.Names names) (limit : Nat) (trail : Trail) :
    ∃ o', LooksAhead limit d ⟨o, trail⟩
        (((generable limit trail.chain d).run r).1, ⟨o', trail⟩) ∧
      ((generable limit trail.chain d).run r).2.Covers names o' := by
  obtain ⟨levels, ⟨o', trail'⟩, hlook, hafter, -⟩ :=
    generable_endsAs ha hclosed limit trail hd r ⟨o, trail⟩ h rfl rfl
  obtain rfl : trail' = trail := LooksAhead.trail ⟨levels, hlook⟩
  exact ⟨o', ⟨levels, hlook⟩, hafter⟩

end

/-! ### More room -/

/-- **An end remains where there is more room**: with a higher limit, and after a chain on which no
record stands more often. -/
theorem Viable.mono {answer : String → Except Error Record} {limit limit' : Nat}
    {chain chain' : List String} {d : Descriptor} (h : Viable answer limit chain d)
    (hl : limit ≤ limit') (hc : ∀ name, chain'.count name ≤ chain.count name) :
    Viable answer limit' chain' d := by
  induction h generalizing chain' with
  | terminal ht => exact .terminal ht
  | member hm _ ih => exact .member hm (ih hc)
  | @record chain name record hlt hr _ ih =>
      have hname := hc name
      refine .record (by omega) hr fun f hf => ih f hf fun other => ?_
      rw [List.count_cons, List.count_cons]
      exact Nat.add_le_add_right (hc other) _

/-! ### What a look-ahead comes to -/

section

variable {o : OpenRegistry} {d : Descriptor} {r : Registry}

theorem Registry.Covers.reaches_closed (h : r.Covers (d.Reaches o.answer) o) (name other : String)
    (hn : d.Reaches o.answer name) (hrefers : Refers r.answer name other) :
    d.Reaches o.answer other := by
  obtain ⟨first, hw, hreach⟩ := hn
  obtain ⟨record, hr, hfield⟩ := hrefers
  rw [h.answer_eq ⟨first, hw, hreach⟩] at hr
  exact ⟨first, hw, hreach.tail ⟨record, hr, hfield⟩⟩

theorem Registry.Covers.reaches (h : r.Covers (d.Reaches o.answer) o) {name : String}
    (hn : d.Reaches r.answer name) : d.Reaches o.answer name := by
  obtain ⟨first, hw, hreach⟩ := hn
  induction hreach with
  | refl => exact ⟨first, hw, .refl⟩
  | tail _ hrefers ih => exact h.reaches_closed _ _ ih hrefers

/-- Where every name has a record the look-ahead says whether the type has an end. -/
theorem Registry.Covers.says_viable (h : r.Covers (d.Reaches o.answer) o) (ha : Settled r.answer)
    (hresolves : d.Resolves o.answer) (limit : Nat) (trail : Trail) :
    ∃ b, o.Says limit trail d (.ok b) ∧ (b = true ↔ Viable r.answer limit trail.chain d) := by
  obtain ⟨o', hlook, -⟩ := h.looksAhead ha h.reaches_closed
    (fun name hw => ⟨name, hw, .refl⟩) limit trail
  obtain ⟨-, houtcome⟩ := generable_gives ha limit trail.chain d r rfl
  cases hrun : ((generable limit trail.chain d).run r).1 with
  | error e =>
      rw [hrun] at houtcome
      obtain ⟨name, hn, he⟩ := houtcome
      obtain ⟨record, hrecord⟩ := hresolves name (h.reaches hn)
      rw [h.answer_eq (h.reaches hn), hrecord] at he
      cases he
  | ok b =>
      rw [hrun] at hlook houtcome
      exact ⟨b, ⟨o', hlook⟩, houtcome⟩

/-- Finitely many names can be listed by a provider. -/
theorem OpenRegistry.Reached.exists_covers (ho : o.Reached)
    (hfinite : {name | d.Reaches o.answer name}.Finite) :
    ∃ r : Registry, r.Covers (d.Reaches o.answer) o ∧ Settled r.answer := by
  refine ⟨o.within hfinite.toFinset.toList, (o.within_covers _).mono fun name hn => ?_,
    (ho.keepsSettled _).settled⟩
  simpa using hn

/-- **What a look-ahead comes to** where a type leads to finitely many names, some of which may have
no record.  It ends, and leaves the chain and the counter as they were.  On a registry with a
provider that lists its names it gives what the generator is told, and leaves the same records
behind.  Where every name has a record it says yes or no: with more records on the chain never yes
instead of no, and with a higher limit never no instead of yes. -/
theorem OpenRegistry.lookAhead_comes_back (ho : o.Reached)
    (hfinite : {name | d.Reaches o.answer name}.Finite) (limit : Nat) (trail : Trail) :
    (∃ levels outcome o', ∀ more, levels ≤ more →
      lookAheadF limit more d ⟨o, trail⟩ = some (outcome, ⟨o', trail⟩)) ∧
    (∀ r : Registry, r.opened = o →
      LooksAhead limit d ⟨o, trail⟩ (((generable limit trail.chain d).run r).1,
        ⟨((generable limit trail.chain d).run r).2.opened, trail⟩)) ∧
    (d.Resolves o.answer → ∃ b, o.Says limit trail d (.ok b) ∧
      (∀ trail' : Trail, trail.chain.Sublist trail'.chain →
        ∃ c, o.Says limit trail' d (.ok c) ∧ (c = true → b = true)) ∧
      ∀ limit', limit ≤ limit' →
        ∃ c, o.Says limit' trail d (.ok c) ∧ (b = true → c = true)) := by
  obtain ⟨q, hq, ha⟩ := ho.exists_covers hfinite
  refine ⟨?_, ?_, fun hresolves => ?_⟩
  · obtain ⟨o', ⟨levels, hlook⟩, -⟩ := hq.looksAhead ha hq.reaches_closed
      (fun name hw => ⟨name, hw, .refl⟩) limit trail
    exact ⟨levels, _, o', fun more hmore => lookAheadF_mono hmore _ _ _ hlook⟩
  · rintro r rfl
    have hanswer : r.answer = r.opened.answer :=
      funext fun name => r.opened_covers.answer_eq trivial
    obtain ⟨o', hlook, hafter⟩ := r.opened_covers.looksAhead (hanswer ▸ ho.settled)
      (fun _ _ _ _ => trivial) (fun _ _ => trivial) limit trail
    rwa [← hafter.eq_opened]
  · obtain ⟨b, hb, hviable⟩ := hq.says_viable ha hresolves limit trail
    refine ⟨b, hb, fun trail' hsub => ?_, fun limit' hl => ?_⟩
    · obtain ⟨c, hc, hviable'⟩ := hq.says_viable ha hresolves limit trail'
      refine ⟨c, hc, fun hyes => hviable.mpr ?_⟩
      exact (hviable'.mp hyes).mono (Nat.le_refl _) fun name => hsub.count_le name
    · obtain ⟨c, hc, hviable'⟩ := hq.says_viable ha hresolves limit' trail
      refine ⟨c, hc, fun hyes => hviable'.mpr ?_⟩
      exact (hviable.mp hyes).mono hl fun _ => Nat.le_refl _

end

/-- Under every name there is a tree, with a leaf and perhaps another tree like itself, but for the
leaf, which has nothing. -/
def groveLookup : Lookup := fun name =>
  .ok (some ⟨name, none, none, [],
    if name = "Leaf" then [] else [
      ⟨"next", .union [.self, .boolean], none, ⟨none, none, none, none, none, []⟩⟩,
      ⟨"leaf", .record "Leaf", none, ⟨none, none, none, none, none, []⟩⟩]⟩)

/-- The registry that asks for trees. -/
def groveRegistry : OpenRegistry := ⟨some groveLookup, []⟩

theorem groveRegistry_answer_tree :
    groveRegistry.answer "Tree" = .ok ⟨"Tree", none, none, [], [
      ⟨"next", .union [.reference "Tree", .primitive .boolean], none, 0, none, []⟩,
      ⟨"leaf", .reference "Leaf", none, 1, none, []⟩]⟩ := by
  with_unfolding_all rfl

theorem groveRegistry_answer_leaf :
    groveRegistry.answer "Leaf" = .ok ⟨"Leaf", none, none, [], []⟩ := by
  with_unfolding_all rfl

/-- A tree leads to trees like itself and to the leaf alone. -/
theorem eq_of_tree_reachable {other : String}
    (h : Reachable groveRegistry.answer "Tree" other) : other = "Tree" ∨ other = "Leaf" := by
  induction h with
  | refl => exact Or.inl rfl
  | tail _ hrefers ih =>
      obtain ⟨record, hr, f, hf, hw⟩ := hrefers
      rcases ih with rfl | rfl
      · cases groveRegistry_answer_tree.symm.trans hr
        simp only [List.mem_cons, List.not_mem_nil, or_false] at hf
        rcases hf with rfl | rfl
        · cases hw with
          | member hm hw =>
              simp only [List.mem_cons, List.not_mem_nil, or_false] at hm
              rcases hm with rfl | rfl
              · cases hw
                exact Or.inl rfl
              · cases hw
        · cases hw
          exact Or.inr rfl
      · cases groveRegistry_answer_leaf.symm.trans hr
        cases hf

/-- A look-ahead for trees comes back, though every name has a record; so does one for links, where
another link is one too many. -/
theorem trees_and_links_come_back :
    groveRegistry.Reached ∧
      {name | (Descriptor.reference "Tree").Reaches groveRegistry.answer name}.Finite ∧
      (Descriptor.reference "Tree").Resolves groveRegistry.answer ∧
      (∃ levels outcome o', ∀ more, levels ≤ more →
        lookAheadF 1 more (.reference "Tree") ⟨groveRegistry, ⟨[], 3⟩⟩ =
          some (outcome, ⟨o', ⟨[], 3⟩⟩)) ∧
      (∃ b, groveRegistry.Says 1 ⟨[], 3⟩ (.reference "Tree") (.ok b) ∧
        (∃ c, groveRegistry.Says 1 ⟨["Leaf"], 3⟩ (.reference "Tree") (.ok c) ∧
          (c = true → b = true)) ∧
        ∃ c, groveRegistry.Says 2 ⟨[], 3⟩ (.reference "Tree") (.ok c) ∧ (b = true → c = true)) ∧
      linkRegistry.opened.Reached ∧
      {name | (Descriptor.reference "Link").Reaches linkRegistry.opened.answer name}.Finite ∧
      LooksAhead 1 (.reference "Link") ⟨linkRegistry.opened, ⟨["Link"], 3⟩⟩
        (.ok false, ⟨linkRegistry.opened, ⟨["Link"], 3⟩⟩) := by
  have hgrove : groveRegistry.Reached := .new _
  have hnames (name : String)
      (h : (Descriptor.reference "Tree").Reaches groveRegistry.answer name) :
      name = "Tree" ∨ name = "Leaf" := eq_of_tree_reachable h.reachable
  have hfinite := (Set.toFinite {"Tree", "Leaf"}).subset hnames
  have hresolves : (Descriptor.reference "Tree").Resolves groveRegistry.answer := by
    intro name h
    rcases hnames name h with rfl | rfl
    · exact ⟨_, groveRegistry_answer_tree⟩
    · exact ⟨_, groveRegistry_answer_leaf⟩
  have hlinks : linkRegistry.opened.Reached := linkRegistry_reached.opened
  have hanswer : linkRegistry.opened.answer = linkRegistry.answer :=
    funext fun name => (linkRegistry.opened_covers.answer_eq trivial).symm
  have hlink (name : String)
      (h : (Descriptor.reference "Link").Reaches linkRegistry.opened.answer name) :
      name = "Link" := by
    rw [hanswer] at h
    exact eq_of_link_reachable h.reachable
  have hfew := (Set.toFinite {"Link"}).subset hlink
  obtain ⟨hends, -, hyesno⟩ := OpenRegistry.lookAhead_comes_back hgrove hfinite 1 ⟨[], 3⟩
  obtain ⟨b, hb, hmore, hhigher⟩ := hyesno hresolves
  obtain ⟨-, hsame, -⟩ := OpenRegistry.lookAhead_comes_back hlinks hfew 1 ⟨["Link"], 3⟩
  have hrun : (generable 1 ["Link"] (.reference "Link")).run linkRegistry =
      (.ok false, linkRegistry) := by
    with_unfolding_all rfl
  have hlook := hsame linkRegistry rfl
  rw [hrun] at hlook
  exact ⟨hgrove, hfinite, hresolves, hends,
    ⟨b, hb, hmore ⟨["Leaf"], 3⟩ (by simp), hhigher 2 (by decide)⟩, hlinks, hfew, hlook⟩

/-! ### Names without end -/

theorem OpenRegistry.answer_after_fetch (o : OpenRegistry) (name other : String) :
    (o.after (.fetch name)).answer other = o.answer other := by
  have hcovers := o.within_covers [name, other]
  obtain ⟨-, hafter⟩ := hcovers.run (.fetch name) (by simp [RegistryCall.name])
  rw [← hafter.answer_eq (by simp), ← hcovers.answer_eq (by simp)]
  exact Registry.answer_remember _ name other

/-- Under every name there is a record that refers to a longer name. -/
def endlessLookup : Lookup := fun name =>
  .ok (some ⟨name, none, none, [], [
    ⟨"next", .record (name ++ "+"), none, ⟨none, none, none, none, none, []⟩⟩]⟩)

/-- The registry that asks for such records. -/
def endlessRegistry : OpenRegistry := ⟨some endlessLookup, []⟩

theorem endlessRegistry_answer {name : String} (h : name.isEmpty = false) :
    endlessRegistry.answer name =
      .ok ⟨name, none, none, [], [⟨"next", .reference (name ++ "+"), none, 0, none, []⟩]⟩ := by
  simp [OpenRegistry.answer, OpenRegistry.within, endlessRegistry, Registry.answer, Registry.get?,
    Provider.record, Provider.within, endlessLookup, Record.ofDeclaration, h,
    Field.ofDeclarations, Field.ofDeclaration, DeclaredField.typeAndDefault, Descriptor.ofDeclared,
    Descriptor.withDefault, Except.map, bind, Except.bind, pure, Except.pure]

/-- The look-ahead is about to look at a record of an endless row; the names on the chain are
shorter. -/
structure AtEndless (name : String) (s : LookState) : Prop where
  named : name.isEmpty = false
  answers : s.registry.answer = endlessRegistry.answer
  shorter : ∀ other ∈ s.trail.chain, other.length < name.length

/-- At the next record of the row all is as before. -/
theorem AtEndless.next {name : String} {s : LookState} (h : AtEndless name s) :
    AtEndless (name ++ "+") ((s.fetch name).2.push name) where
  named := by simp
  answers := funext fun other =>
    (s.registry.answer_after_fetch name other).trans (congrFun h.answers other)
  shorter other hother := by
    have hlength : (name ++ "+").length = name.length + 1 := String.length_append name "+"
    rcases List.mem_cons.mp hother with rfl | hother
    · omega
    · have hlt := h.shorter other hother
      omega

/-- No levels suffice, since there would have to be fewer for the next name. -/
theorem AtEndless.lookAheadF_eq_none {limit : Nat} (hl : 0 < limit) (levels : Nat) {name : String}
    {s : LookState} (h : AtEndless name s) :
    lookAheadF limit levels (.reference name) s = none := by
  induction levels generalizing name s with
  | zero => rfl
  | succ levels ih =>
      rw [Option.eq_none_iff_forall_ne_some]
      intro r hr
      have hnot : name ∉ s.trail.chain := fun hmem => Nat.lt_irrefl _ (h.shorter name hmem)
      have hlimit : ¬ atLimit limit s.trail.chain name = true := by
        rw [atLimit, List.count_eq_zero_of_not_mem hnot]
        simpa using Nat.ne_of_gt hl
      have hanswer := (congrFun h.answers name).trans (endlessRegistry_answer h.named)
      rcases (lookInto_reference_iff hlimit).mp hr with ⟨e, herror, -⟩ | ⟨record, b, u, hok, hf, -⟩
      · cases hanswer.symm.trans herror
      · cases hanswer.symm.trans hok
        rcases everyField_cons_iff.mp hf with ⟨t, hnext, -⟩ | ⟨hnext, -⟩
        · cases (ih h.next).symm.trans hnext
        · cases (ih h.next).symm.trans hnext

/-- **Where names do not end, a look-ahead may not end either.** -/
theorem endless_never_ends {limit : Nat} (hl : 0 < limit) {name : String}
    (hname : name.isEmpty = false) (depth : Nat) (r : Except Error Bool × LookState) :
    ¬ LooksAhead limit (.reference name) ⟨endlessRegistry, ⟨[], depth⟩⟩ r := by
  rintro ⟨levels, hr⟩
  have hat : AtEndless name ⟨endlessRegistry, ⟨[], depth⟩⟩ := ⟨hname, rfl, by simp⟩
  cases (hat.lookAheadF_eq_none hl levels).symm.trans hr

end RecordModel
