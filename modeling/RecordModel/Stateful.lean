/-
**Computations on a state.**

A computation starts in a state and gives a value or an error; it leaves a state behind in either
case, so that what was done before an error stays done.  Looking up records, building a schema and
generating values are such computations, on a registry alone or on more than it.

Main definitions:

* `Stateful` — the computations;
* `Stateful.onPart` — a computation on a part of the state.

Main results:

* `Stateful.run_bind`, `Stateful.run_map` — a step after another, and a function of the value;
* `Stateful.run_onPart` — the rest of the state stays as it was.
-/

set_option relaxedAutoImplicit false
set_option autoImplicit false

namespace RecordModel

/-- Computations that give a value or an error, and leave a state behind in either case. -/
abbrev Stateful (σ ε : Type) := ExceptT ε (StateM σ)

namespace Stateful

variable {σ τ ε φ α β : Type}

/-- A computation on a part of the state; `replace` puts the part back, and `fault` says what an
error of the part is for the whole. -/
def onPart (part : σ → τ) (replace : τ → σ → σ) (fault : φ → ε) (m : Stateful τ φ α) :
    Stateful σ ε α :=
  ExceptT.mk fun s =>
    let (answer, t) := m.run (part s)
    (answer.mapError fault, replace t s)

@[simp] theorem run_pure (a : α) (s : σ) : (pure a : Stateful σ ε α).run s = (.ok a, s) := rfl

/-- The next step starts where the one before it ended, unless that gave an error. -/
theorem run_bind (m : Stateful σ ε α) (f : α → Stateful σ ε β) (s : σ) :
    (m >>= f).run s = match m.run s with
      | (.ok a, t) => (f a).run t
      | (.error e, t) => (.error e, t) := by
  unfold ExceptT.run
  simp only [bind, ExceptT.bind, ExceptT.mk, StateT.bind, ExceptT.bindCont]
  cases m s with
  | mk answer t => cases answer <;> rfl

theorem run_map (m : Stateful σ ε α) (f : α → β) (s : σ) :
    (f <$> m).run s = match m.run s with
      | (.ok a, t) => (.ok (f a), t)
      | (.error e, t) => (.error e, t) := by
  unfold ExceptT.run
  simp only [Functor.map, ExceptT.map, ExceptT.mk, bind, StateT.bind]
  cases m s with
  | mk answer t => cases answer <;> rfl

/-- A computation on a part leaves the rest of the state as it was. -/
theorem run_onPart (part : σ → τ) (replace : τ → σ → σ) (fault : φ → ε) (m : Stateful τ φ α)
    (s : σ) :
    (onPart part replace fault m).run s =
      ((m.run (part s)).1.mapError fault, replace (m.run (part s)).2 s) := rfl

end Stateful

end RecordModel
