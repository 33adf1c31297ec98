/-
**What computations give.**

A statement about a computation says what holds of the state before and after it, what holds of the
value that it gives, and what holds of the error.  Such statements go along with the way in which
computations are put together, so that a computation is followed step by step without its states.

Main definitions:

* `Stateful.Outcome` — a value or an error of the wanted kind;
* `Stateful.Gives` — the statement.

Main results:

* `exists_left_of_forall₂`, `exists_right_of_forall₂` — partners in lists that correspond;
* `Stateful.run_bind_eq_ok`, `Stateful.run_map_eq_ok` — a run that gives a value, by its steps;
* `Stateful.Gives.bind`, `Stateful.Gives.map` — a step after another, and a function of the value;
* `Stateful.Gives.mapM` — one step for each of some things;
* `Stateful.Gives.onPart` — a computation on a part of the state.
-/

import Mathlib.Data.List.Forall2
import RecordModel.Stateful

set_option relaxedAutoImplicit false
set_option autoImplicit false

namespace RecordModel

/-! ### Values and errors -/

section

variable {ε α β : Type}

theorem exists_of_bind_eq_ok {x : Except ε α} {f : α → Except ε β} {b : β}
    (h : (x >>= f) = .ok b) : ∃ a, x = .ok a ∧ f a = .ok b := by
  cases x with
  | error e => cases h
  | ok a => exact ⟨a, rfl, h⟩

theorem exists_of_map_eq_ok {x : Except ε α} {f : α → β} {b : β} (h : x.map f = .ok b) :
    ∃ a, x = .ok a ∧ f a = b := by
  cases x with
  | error e => cases h
  | ok a => exact ⟨a, rfl, Except.ok.inj h⟩

end

/-! ### Lists that correspond -/

/-- Every member of the second list has a partner. -/
theorem exists_left_of_forall₂ {α β : Type} {R : α → β → Prop} {as : List α} {bs : List β}
    (h : List.Forall₂ R as bs) {b : β} (hb : b ∈ bs) : ∃ a ∈ as, R a b := by
  induction h with
  | nil => cases hb
  | @cons a b' as bs hab _ ih =>
      rcases List.mem_cons.mp hb with rfl | hb
      · exact ⟨a, List.mem_cons_self .., hab⟩
      · obtain ⟨a', ha', hab'⟩ := ih hb
        exact ⟨a', List.mem_cons_of_mem _ ha', hab'⟩

theorem exists_right_of_forall₂ {α β : Type} {R : α → β → Prop} {as : List α} {bs : List β}
    (h : List.Forall₂ R as bs) {a : α} (ha : a ∈ as) : ∃ b ∈ bs, R a b :=
  exists_left_of_forall₂ h.flip ha

theorem forall₂_imp_of_mem {α β : Type} {R S : α → β → Prop} {as : List α} {bs : List β}
    (h : List.Forall₂ R as bs) (himp : ∀ a ∈ as, ∀ b ∈ bs, R a b → S a b) :
    List.Forall₂ S as bs := by
  induction h with
  | nil => exact .nil
  | cons hab _ ih =>
      refine .cons (himp _ (List.mem_cons_self ..) _ (List.mem_cons_self ..) hab) (ih ?_)
      exact fun a ha b hb => himp a (List.mem_cons_of_mem _ ha) b (List.mem_cons_of_mem _ hb)

namespace Stateful

variable {σ τ ε φ α β : Type}

/-! ### Runs -/

/-- A value that comes from a step and the next one. -/
theorem run_bind_eq_ok {m : Stateful σ ε α} {f : α → Stateful σ ε β} {s t : σ} {b : β} :
    (m >>= f).run s = (.ok b, t) ↔ ∃ a u, m.run s = (.ok a, u) ∧ (f a).run u = (.ok b, t) := by
  rw [run_bind]
  constructor
  · intro h
    rcases hm : m.run s with ⟨_ | a, u⟩
    · rw [hm] at h
      cases h
    · rw [hm] at h
      exact ⟨a, u, rfl, h⟩
  · rintro ⟨a, u, hm, hf⟩
    rw [hm]
    exact hf

/-- A value that comes from a function of another. -/
theorem run_map_eq_ok {m : Stateful σ ε α} {f : α → β} {s t : σ} {b : β} :
    (f <$> m).run s = (.ok b, t) ↔ ∃ a, m.run s = (.ok a, t) ∧ f a = b := by
  rw [run_map]
  constructor
  · intro h
    rcases hm : m.run s with ⟨_ | a, u⟩
    · rw [hm] at h
      cases h
    · rw [hm] at h
      cases h
      exact ⟨a, rfl, rfl⟩
  · rintro ⟨a, hm, rfl⟩
    rw [hm]

/-! ### Statements about computations -/

/-- A value of which `Q` holds, or an error of which `E` holds. -/
def Outcome (Q : α → Prop) (E : ε → Prop) : Except ε α → Prop
  | .ok a => Q a
  | .error e => E e

/-- Where `I` holds of the state it holds of it afterwards, and what comes out is a value of which
`Q` holds or an error of which `E` holds. -/
def Gives (I : σ → Prop) (m : Stateful σ ε α) (Q : α → Prop) (E : ε → Prop) : Prop :=
  ∀ s, I s → I (m.run s).2 ∧ Outcome Q E (m.run s).1

theorem Outcome.mono {Q Q' : α → Prop} {E E' : ε → Prop} {x : Except ε α} (h : Outcome Q E x)
    (hQ : ∀ a, Q a → Q' a) (hE : ∀ e, E e → E' e) : Outcome Q' E' x := by
  cases x with
  | ok a => exact hQ a h
  | error e => exact hE e h

namespace Gives

variable {I : σ → Prop} {Q : α → Prop} {R : β → Prop} {E : ε → Prop}

theorem mono {m : Stateful σ ε α} {Q' : α → Prop} {E' : ε → Prop} (h : Gives I m Q E)
    (hQ : ∀ a, Q a → Q' a) (hE : ∀ e, E e → E' e) : Gives I m Q' E' :=
  fun s hs => ⟨(h s hs).1, (h s hs).2.mono hQ hE⟩

theorem mono_error {m : Stateful σ ε α} {E' : ε → Prop} (h : Gives I m Q E)
    (hE : ∀ e, E e → E' e) : Gives I m Q E' := h.mono (fun _ hq => hq) hE

theorem of_run_ok {m : Stateful σ ε α} (h : Gives I m Q E) {s t : σ} {a : α} (hs : I s)
    (hr : m.run s = (.ok a, t)) : I t ∧ Q a := by
  have hm := h s hs
  rw [hr] at hm
  exact hm

theorem of_run_error {m : Stateful σ ε α} (h : Gives I m Q E) {s t : σ} {e : ε} (hs : I s)
    (hr : m.run s = (.error e, t)) : I t ∧ E e := by
  have hm := h s hs
  rw [hr] at hm
  exact hm

theorem exists_run_ok {m : Stateful σ ε α} (h : Gives I m Q fun _ => False) {s : σ} (hs : I s) :
    ∃ a t, m.run s = (.ok a, t) ∧ Q a := by
  rcases hr : m.run s with ⟨e | a, t⟩
  · exact (h.of_run_error hs hr).2.elim
  · exact ⟨a, t, rfl, (h.of_run_ok hs hr).2⟩

theorem exists_run_error {m : Stateful σ ε α} (h : Gives I m (fun _ => False) E) {s : σ}
    (hs : I s) : ∃ e t, m.run s = (.error e, t) ∧ E e := by
  rcases hr : m.run s with ⟨e | a, t⟩
  · exact ⟨e, t, rfl, (h.of_run_error hs hr).2⟩
  · exact (h.of_run_ok hs hr).2.elim

protected theorem pure {a : α} (h : Q a) : Gives I (pure a : Stateful σ ε α) Q E :=
  fun _ hs => ⟨hs, h⟩

protected theorem throw {e : ε} (h : E e) : Gives I (throw e : Stateful σ ε α) Q E :=
  fun _ hs => ⟨hs, h⟩

/-- What the first step gives is what the next one starts from. -/
protected theorem bind {m : Stateful σ ε α} {f : α → Stateful σ ε β} (hm : Gives I m Q E)
    (hf : ∀ a, Q a → Gives I (f a) R E) : Gives I (m >>= f) R E := by
  intro s hs
  obtain ⟨hI, hQ⟩ := hm s hs
  rw [run_bind]
  rcases hr : m.run s with ⟨_ | a, t⟩
  · rw [hr] at hI hQ
    exact ⟨hI, hQ⟩
  · rw [hr] at hI hQ
    exact hf a hQ t hI

/-- A function of the value. -/
protected theorem map {m : Stateful σ ε α} {f : α → β} (hm : Gives I m Q E)
    (hf : ∀ a, Q a → R (f a)) : Gives I (f <$> m) R E := by
  intro s hs
  obtain ⟨hI, hQ⟩ := hm s hs
  rw [run_map]
  rcases hr : m.run s with ⟨_ | a, t⟩
  · rw [hr] at hI hQ
    exact ⟨hI, hQ⟩
  · rw [hr] at hI hQ
    exact ⟨hI, hf a hQ⟩

/-- One step for each of some things gives a value for each of them. -/
protected theorem mapM {f : α → Stateful σ ε β} {as : List α} {P : α → β → Prop}
    (hf : ∀ a ∈ as, Gives I (f a) (P a) E) :
    Gives I (as.mapM f) (fun bs => List.Forall₂ P as bs) E := by
  induction as with
  | nil => exact Gives.pure List.Forall₂.nil
  | cons a as ih =>
      rw [List.mapM_cons]
      refine Gives.bind (hf a (List.mem_cons_self ..)) fun b hb => ?_
      refine Gives.bind (ih fun a' ha' => hf a' (List.mem_cons_of_mem _ ha')) fun bs hbs => ?_
      exact Gives.pure (List.Forall₂.cons hb hbs)

/-- A computation on a part of the state, when the statement is about that part. -/
protected theorem onPart {part : σ → τ} {replace : τ → σ → σ} {fault : φ → ε}
    {m : Stateful τ φ α} {J : τ → Prop} {F : φ → Prop}
    (hpart : ∀ t s, part (replace t s) = t) (hm : Gives J m Q F) (hE : ∀ x, F x → E (fault x)) :
    Gives (fun s => J (part s)) (onPart part replace fault m) Q E := by
  intro s hs
  obtain ⟨hJ, hQ⟩ := hm (part s) hs
  rw [run_onPart]
  have hp : J (part (replace (m.run (part s)).2 s)) := by
    rw [hpart]
    exact hJ
  refine ⟨hp, ?_⟩
  cases hr : (m.run (part s)).1 with
  | ok a =>
      rw [hr] at hQ
      exact hQ
  | error x =>
      rw [hr] at hQ
      exact hE x hQ

end Gives

end Stateful

end RecordModel
