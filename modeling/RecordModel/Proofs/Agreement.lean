/-
**Computations that agree.**

Two computations agree when, from states that are related, they give the same value or the same
error and end in related states.  This goes along with the way in which computations are put
together, as the statements about one computation do.

What reads a registry asks it for its answers alone.  So it agrees with itself on any two registries
that give the same answers, whatever they keep already, and whatever number of steps each of them
allows for.

Main definitions:

* `Stateful.Agree` — computations that agree;
* `SameAnswers` — registries that give the same answers.

Main results:

* `Stateful.Agree.bind`, `Stateful.Agree.mapM`, `Stateful.Agree.onPart` — computations that are put
  together from computations that agree;
* `recordGenerableF_agree` — with enough room left, more of it changes nothing;
* `generable_agree` — **the look-ahead depends on the answers alone**.
-/

import RecordModel.Proofs.Viable

set_option relaxedAutoImplicit false
set_option autoImplicit false

namespace RecordModel

namespace Stateful

variable {σ σ' τ τ' ε φ α β : Type}

/-- From related states the two computations give the same value or the same error, and end in
related states. -/
def Agree (R : σ → τ → Prop) (m : Stateful σ ε α) (n : Stateful τ ε α) : Prop :=
  ∀ s t, R s t → (m.run s).1 = (n.run t).1 ∧ R (m.run s).2 (n.run t).2

namespace Agree

variable {R : σ → τ → Prop}

protected theorem pure (a : α) :
    Agree R (pure a : Stateful σ ε α) (pure a : Stateful τ ε α) := by
  intro s t h
  exact ⟨rfl, h⟩

protected theorem throw (e : ε) :
    Agree R (throw e : Stateful σ ε α) (throw e : Stateful τ ε α) := by
  intro s t h
  exact ⟨rfl, h⟩

/-- The next steps have to agree for the values that the first ones can give. -/
theorem bind_gives {m : Stateful σ ε α} {n : Stateful τ ε α} {f : α → Stateful σ ε β}
    {g : α → Stateful τ ε β} {I : σ → Prop} {Q : α → Prop} {E : ε → Prop}
    (hI : ∀ s t, R s t → I s) (hQ : Gives I m Q E) (hm : Agree R m n)
    (hf : ∀ a, Q a → Agree R (f a) (g a)) : Agree R (m >>= f) (n >>= g) := by
  intro s t h
  obtain ⟨hanswer, hR⟩ := hm s t h
  obtain ⟨-, hgives⟩ := hQ s (hI s t h)
  rw [run_bind, run_bind]
  rcases hs : m.run s with ⟨x, s'⟩
  rcases ht : n.run t with ⟨y, t'⟩
  rw [hs, ht] at hanswer hR
  rw [hs] at hgives
  cases hanswer
  cases x with
  | error e => exact ⟨rfl, hR⟩
  | ok a => exact hf a hgives s' t' hR

protected theorem bind {m : Stateful σ ε α} {n : Stateful τ ε α} {f : α → Stateful σ ε β}
    {g : α → Stateful τ ε β} (hm : Agree R m n) (hf : ∀ a, Agree R (f a) (g a)) :
    Agree R (m >>= f) (n >>= g) := by
  have htrue : Gives (fun _ => True) m (fun _ => True) (fun _ => True) := by
    intro s _
    exact ⟨trivial, by cases (m.run s).1 <;> trivial⟩
  exact bind_gives (fun _ _ _ => trivial) htrue hm fun a _ => hf a

protected theorem map {m : Stateful σ ε α} {n : Stateful τ ε α} (hm : Agree R m n) (f : α → β) :
    Agree R (f <$> m) (f <$> n) := by
  rw [map_eq_pure_bind, map_eq_pure_bind]
  exact Agree.bind hm fun a => Agree.pure (f a)

/-- One step for each of some things. -/
protected theorem mapM {f : α → Stateful σ ε β} {g : α → Stateful τ ε β} {as : List α}
    (h : ∀ a ∈ as, Agree R (f a) (g a)) : Agree R (as.mapM f) (as.mapM g) := by
  induction as with
  | nil => exact Agree.pure []
  | cons a as ih =>
      rw [List.mapM_cons, List.mapM_cons]
      refine Agree.bind (h a (List.mem_cons_self ..)) fun b => ?_
      refine Agree.bind (ih fun a' ha' => h a' (List.mem_cons_of_mem _ ha')) fun bs => ?_
      exact Agree.pure (b :: bs)

/-- Computations on a part of the state, when the parts of related states are related and the rest
of them is. -/
protected theorem onPart {part : σ → σ'} {replace : σ' → σ → σ} {part' : τ → τ'}
    {replace' : τ' → τ → τ} {fault : φ → ε} {m : Stateful σ' φ α} {n : Stateful τ' φ α}
    {P : σ' → τ' → Prop} (hpart : ∀ s t, R s t → P (part s) (part' t))
    (hreplace : ∀ s t u v, R s t → P u v → R (replace u s) (replace' v t)) (hm : Agree P m n) :
    Agree R (onPart part replace fault m) (onPart part' replace' fault n) := by
  intro s t h
  obtain ⟨hanswer, hP⟩ := hm _ _ (hpart s t h)
  rw [run_onPart, run_onPart]
  exact ⟨by rw [hanswer], hreplace s t _ _ h hP⟩

end Agree

end Stateful

open Stateful

/-! ### Registries with the same answers -/

theorem Answers.mem_knownNames {answer : String → Except Error Record} {r : Registry}
    (h : Answers answer r) : ∀ n record, answer n = .ok record → n ∈ r.knownNames := by
  intro n record hn
  exact Registry.mem_knownNames_of_answer ((congrFun h n).trans hn)

theorem Answers.remember {answer : String → Except Error Record} {r : Registry}
    (h : Answers answer r) (name : String) : Answers answer (r.remember name) :=
  (Registry.answer_fetch r name).trans h

/-- Both registries give these answers. -/
def SameAnswers (answer : String → Except Error Record) (r q : Registry) : Prop :=
  Answers answer r ∧ Answers answer q

section

variable {answer : String → Except Error Record}

theorem fetch_agree (answer : String → Except Error Record) (name : String) :
    Agree (SameAnswers answer) (Registry.fetch name) (Registry.fetch name) := by
  rintro r q ⟨hr, hq⟩
  refine ⟨?_, (fetch_gives answer name r hr).1, (fetch_gives answer name q hq).1⟩
  rw [Registry.fetch_run, Registry.fetch_run]
  exact (congrFun hr name).trans (congrFun hq name).symm

/-! ### The look-ahead -/

mutual

/-- The look-ahead for a type asks about its references alone. -/
theorem generableWith_agree {ofRecord ofRecord' : String → RegistryM Bool}
    (h : ∀ name, Agree (SameAnswers answer) (ofRecord name) (ofRecord' name)) (d : Descriptor) :
    Agree (SameAnswers answer) (generableWith ofRecord d) (generableWith ofRecord' d) := by
  cases d with
  | reference name =>
      rw [generableWith, generableWith]
      exact h name
  | union members =>
      rw [generableWith, generableWith]
      exact anyGenerableWith_agree h members
  | _ =>
      rw [generableWith_of_isTerminal rfl, generableWith_of_isTerminal rfl]
      exact Agree.pure true

/-- The look-ahead for the members of a union. -/
theorem anyGenerableWith_agree {ofRecord ofRecord' : String → RegistryM Bool}
    (h : ∀ name, Agree (SameAnswers answer) (ofRecord name) (ofRecord' name))
    (ms : List Descriptor) :
    Agree (SameAnswers answer) (anyGenerableWith ofRecord ms) (anyGenerableWith ofRecord' ms) := by
  cases ms with
  | nil =>
      rw [anyGenerableWith, anyGenerableWith]
      exact Agree.pure false
  | cons m rest =>
      rw [anyGenerableWith, anyGenerableWith]
      split
      · exact Agree.pure true
      · refine Agree.bind (generableWith_agree h m) fun b => ?_
        split
        · exact Agree.pure true
        · exact anyGenerableWith_agree h rest

end

/-- The look-ahead for the fields of a record. -/
theorem allGenerableWith_agree {ofRecord ofRecord' : String → RegistryM Bool}
    (h : ∀ name, Agree (SameAnswers answer) (ofRecord name) (ofRecord' name))
    (ds : List Descriptor) :
    Agree (SameAnswers answer) (allGenerableWith ofRecord ds) (allGenerableWith ofRecord' ds) := by
  induction ds with
  | nil => exact Agree.pure true
  | cons d rest ih =>
      rw [allGenerableWith, allGenerableWith]
      refine Agree.bind (generableWith_agree h d) fun b => ?_
      split
      · exact ih
      · exact Agree.pure false

/-- **With enough room left, more of it changes nothing**: two look-aheads agree although each of
them allows for the names that it knows. -/
theorem recordGenerableF_agree (ha : Settled answer) {known known' : List String}
    (hk : ∀ n record, answer n = .ok record → n ∈ known)
    (hk' : ∀ n record, answer n = .ok record → n ∈ known') (limit : Nat) (budget budget' : Nat)
    (chain : List String) (name : String) (hroom : room limit chain known < budget)
    (hroom' : room limit chain known' < budget') :
    Agree (SameAnswers answer) (recordGenerableF limit budget chain name)
      (recordGenerableF limit budget' chain name) := by
  -- induction on the first budget; both of them stay above the room on the chain
  induction budget generalizing budget' chain name with
  | zero => omega
  | succ budget ih =>
      cases budget' with
      | zero => omega
      | succ budget' =>
          rw [recordGenerableF, recordGenerableF]
          split
          · exact Agree.pure false
          · rename_i hl
            have hc : chain.count name < limit := by simpa [atLimit] using hl
            refine Agree.bind_gives (fun _ _ h => h.1) (fetch_gives answer name)
              (fetch_agree answer name) fun record hr => ?_
            rw [ha.name_eq hr]
            have hlt := room_cons_lt (hk name record hr) hc
            have hlt' := room_cons_lt (hk' name record hr) hc
            refine allGenerableWith_agree (fun other => ?_) _
            exact ih budget' (name :: chain) other (by omega) (by omega)

/-- **The look-ahead depends on the answers alone.** -/
theorem generable_agree (ha : Settled answer) (limit : Nat) (chain : List String)
    (d : Descriptor) :
    Agree (SameAnswers answer) (generable limit chain d) (generable limit chain d) := by
  refine generableWith_agree (fun name => ?_) d
  rintro r q ⟨hr, hq⟩
  have hroom : ∀ r : Registry, room limit chain r.knownNames < r.knownNames.length * limit + 1 :=
    fun r => Nat.lt_succ_of_le (room_le limit chain r.knownNames)
  exact recordGenerableF_agree ha hr.mem_knownNames hq.mem_knownNames limit _ _ chain name (hroom r)
    (hroom q) r q ⟨hr, hq⟩

end

end RecordModel
