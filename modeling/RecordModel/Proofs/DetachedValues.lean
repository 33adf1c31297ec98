/-
**Values outside any record.**

A value can be asked for by its type alone, and the type may be one that no declaration is settled
as: unions and enumerations that are empty, unions and optional types in one another, fixed bytes
and decimals of any size.  What is drawn conforms to the type all the same, with one exception.  For
decimals without digits zero is drawn, which has a digit.

Main definitions:

* `Decimal.zero` — the number zero, without digits behind the point.

Main results:

* `drawValue_gives_zero` — what is drawn for decimals without digits;
* `drawValue_conforms` — **what is drawn conforms deeply where every decimal has digits, and zero,
  which does not conform, is drawn for decimals without digits**;
* `zero_has_a_digit` — such a value, by example.
-/

import RecordModel.Proofs.DeepValues
import RecordModel.Proofs.Ranges

set_option relaxedAutoImplicit false
set_option autoImplicit false

namespace RecordModel

open Stateful

/-! ### Decimals without digits -/

/-- Zero, without digits behind the point. -/
def Decimal.zero : Decimal := ⟨0, 0, by decide⟩

section

variable {σ : Type} [RandomSource σ] {answer : String → Except Error Record}

/-- The one number below the power of no digits is zero. -/
theorem Generator.decimal_gives_zero (position : Position) :
    Gives (Knows (σ := σ) answer) (decimal 0 0 position) (fun d => d = .zero)
      (fun _ => False) := by
  intro st hst
  obtain ⟨d, source, -, hd, hscale, hrun⟩ :=
    exists_decimal_run (Nat.le_refl 0) (Nat.zero_le _) position st
  have hzero : d = .zero := by
    cases d
    cases hscale
    cases Int.natAbs_eq_zero.mp (Nat.le_zero.mp hd)
    rfl
  rw [hrun]
  exact ⟨hst, hzero⟩

/-- **For decimals without digits zero is drawn.** -/
theorem drawValue_gives_zero {s : Settings} (hs : s.Valid) :
    Gives (Generator.Knows (σ := σ) answer) (drawValue s (.logical (.decimal 0 0)))
      (fun v => v = .decimal .zero) (fun _ => False) := by
  obtain ⟨levels, hlevels⟩ := Nat.exists_eq_succ_of_ne_zero hs.leavesRoom.nesting.ne'
  refine Gives.bind ((checkSettings_gives s noRecord).mono_error ?_) fun _ _ => ?_
  · rintro e ⟨problem, hp, -⟩
    cases hs.symm.trans hp
  · rw [hlevels, Generator.valueF]
    exact Gives.map (Generator.decimal_gives_zero _) fun d hd => congrArg Value.decimal hd

end

/-! ### Values by themselves -/

/-- **What is drawn conforms deeply where every decimal has digits.**  In general it conforms to the
type in which decimals without digits are given one.  For decimals without digits, zero is drawn
whenever the settings have no problem, and does not conform. -/
theorem drawValue_conforms {σ : Type} [RandomSource σ] {r : Registry} (hr : r.Reached)
    (s : Settings) (source : σ) :
    (∀ (d : Descriptor) (v : Value) (t : GeneratorState σ),
      (drawValue s d).run ⟨r, source⟩ = (.ok v, t) →
      d.withDigits.AcceptsDeeply r.answer v ∧
        (¬ Descriptor.Within (.logical (.decimal 0 0)) d → d.AcceptsDeeply r.answer v)) ∧
      (s.Valid → ∃ t, (drawValue s (.logical (.decimal 0 0))).run ⟨r, source⟩ =
        (.ok (.decimal .zero), t)) ∧
      Descriptor.accepts (.logical (.decimal 0 0)) (.decimal .zero) = false := by
  have hknows := Generator.knows_self r source
  refine ⟨fun d v t hrun => ?_, fun hs => ?_, by decide +kernel⟩
  · obtain ⟨-, hdrawn⟩ := (drawValue_gives hr.settled s d).of_run_ok hknows hrun
    have hdeep := hdrawn.acceptsDeeply_withDigits hr.settled
    exact ⟨hdeep, fun hd => d.withDigits_eq_self hd ▸ hdeep⟩
  · obtain ⟨_, t, hrun, rfl⟩ := (drawValue_gives_zero hs).exists_run_ok hknows
    exact ⟨t, hrun⟩

/-- Null is drawn where nothing else is left in a union of unions, and conforms. -/
theorem null_of_empty_unions :
    Registry.empty.Reached ∧ ∃ t : GeneratorState SplitMix,
      (drawValue {} (.union [.union [], .optional (.optional (.union []))])).run
          ⟨Registry.empty, ⟨[], 0⟩⟩ = (.ok .null, t) ∧
        Descriptor.AcceptsDeeply Registry.empty.answer
          (.union [.union [], .optional (.optional (.union []))]) .null := by
  have hrun : ∃ t : GeneratorState SplitMix,
      (drawValue {} (.union [.union [], .optional (.optional (.union []))])).run
        ⟨Registry.empty, ⟨[], 0⟩⟩ = (.ok .null, t) := ⟨_, by with_unfolding_all rfl⟩
  obtain ⟨t, hrun⟩ := hrun
  have h := (drawValue_conforms (.new none) {} (⟨[], 0⟩ : SplitMix)).1 _ _ _ hrun
  exact ⟨.new none, t, hrun, h.1⟩

/-- **A value that is drawn does not always conform.** -/
theorem zero_has_a_digit :
    ((drawValue {} (.logical (.decimal 0 0))).run
        (⟨Registry.empty, ⟨[], 0⟩⟩ : GeneratorState SplitMix)).1 = .ok (.decimal .zero) ∧
      Descriptor.accepts (.logical (.decimal 0 0)) (.decimal .zero) = false :=
  ⟨by with_unfolding_all rfl, by decide +kernel⟩

end RecordModel
