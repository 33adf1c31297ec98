/-
**The limits of a generation, as they show.**

Two numbers limit what is generated: how often a record may stand on the chain, and how deep types
may be nested.  Both show in the value of every field that was not given one.  On a path of nested
instances, with the instance itself at its head, no record stands more often than the first number,
and the value is not taller than the second one.

A union or an optional type takes a level without making the value taller, so that a value may well
be less tall than the levels that it took.

Main definitions:

* `Value.height` — how tall a value is.

Main results:

* `Value.height_array_le_iff`, `Value.height_map_le_iff`, `Value.height_record_le_iff` — the height
  through the parts;
* `Drawn.height_le` — what is drawn is not taller than the levels that were left;
* `drawInstance_bounds` — **the limits show in every drawn field, and the nesting alone decides
  which call is refused for it**.
-/

import RecordModel.Proofs.SelfReference
import RecordModel.Proofs.Walk

set_option relaxedAutoImplicit false
set_option autoImplicit false

namespace RecordModel

open Stateful

/-! ### How tall a value is -/

namespace Value

mutual

/-- How tall a value is: a collection and an instance are one taller than the tallest part. -/
def height : Value → Nat
  | .array items => tallestItem items + 1
  | .map entries => tallestEntry entries + 1
  | .record ⟨_, fields⟩ => tallestEntry fields + 1
  | _ => 1

/-- The height of the tallest item. -/
def tallestItem : List Value → Nat
  | [] => 0
  | v :: vs => max (height v) (tallestItem vs)

/-- The height of the tallest of some named values. -/
def tallestEntry : List (String × Value) → Nat
  | [] => 0
  | (_, v) :: vs => max (height v) (tallestEntry vs)

end

theorem tallestItem_le_iff {vs : List Value} {n : Nat} :
    tallestItem vs ≤ n ↔ ∀ v ∈ vs, v.height ≤ n := by
  induction vs with
  | nil => simp [tallestItem]
  | cons v vs ih => rw [tallestItem, Nat.max_le, ih, List.forall_mem_cons]

theorem tallestEntry_le_iff {entries : List (String × Value)} {n : Nat} :
    tallestEntry entries ≤ n ↔ ∀ e ∈ entries, e.2.height ≤ n := by
  induction entries with
  | nil => simp [tallestEntry]
  | cons e entries ih => rw [tallestEntry, Nat.max_le, ih, List.forall_mem_cons]

theorem height_array_le_iff {vs : List Value} {n : Nat} :
    (Value.array vs).height ≤ n + 1 ↔ ∀ v ∈ vs, v.height ≤ n := by
  rw [height, Nat.add_le_add_iff_right, tallestItem_le_iff]

theorem height_map_le_iff {entries : List (String × Value)} {n : Nat} :
    (Value.map entries).height ≤ n + 1 ↔ ∀ e ∈ entries, e.2.height ≤ n := by
  rw [height, Nat.add_le_add_iff_right, tallestEntry_le_iff]

theorem height_record_le_iff {i : Instance Value} {n : Nat} :
    (Value.record i).height ≤ n + 1 ↔ ∀ e ∈ i.fields, e.2.height ≤ n := by
  obtain ⟨record, fields⟩ := i
  rw [height, Nat.add_le_add_iff_right, tallestEntry_le_iff]

theorem height_of_isScalar {v : Value} (h : v.isScalar = true) : v.height = 1 := by
  cases v with
  | array _ => cases h
  | map _ => cases h
  | record _ => cases h
  | _ => rw [height] <;> simp

end Value

/-- **What is drawn is not taller than the levels that were left.** -/
theorem Drawn.height_le {answer : String → Except Error Record} {s : Settings} {levels : Nat}
    {chain : List String} {d : Descriptor} {v : Value} (h : Drawn answer s levels chain d v) :
    v.height ≤ levels := by
  have hscalar {v : Value} {levels : Nat} (hv : v.isScalar = true) : v.height ≤ levels + 1 := by
    rw [Value.height_of_isScalar hv]
    exact Nat.le_add_left 1 levels
  induction h with
  | primitive hv => exact hscalar (Primitive.isScalar_of_carries hv)
  | logical hv => exact hscalar (Logical.isScalar_of_carries hv)
  | fixed _ => exact hscalar rfl
  | enum _ => exact hscalar rfl
  | items _ _ _ _ ih => exact Value.height_array_le_iff.mpr ih
  | noItems _ => exact Value.height_array_le_iff.mpr (by simp)
  | values _ _ _ _ _ ih => exact Value.height_map_le_iff.mpr ih
  | noValues _ => exact Value.height_map_le_iff.mpr (by simp)
  | absent _ _ _ => exact hscalar rfl
  | member _ _ _ _ _ _ ih => exact Nat.le_succ_of_le ih
  | record _ _ hkeys _ ih =>
      refine Value.height_record_le_iff.mpr fun e he => ?_
      obtain ⟨f, hf⟩ := exists_field hkeys he
      exact ih _ hf

/-! ### Generation -/

theorem fst_eq_of_mem_zip {fields : List Field} {entries : List (String × Value)}
    (h : Keyed.keys entries = fields.map (·.name)) {f : Field} {e : String × Value}
    (hf : (f, e) ∈ fields.zip entries) : e.1 = f.name := by
  obtain ⟨i, hi⟩ := List.mem_iff_getElem?.mp hf
  obtain ⟨hfield, hentry⟩ := List.getElem?_zip_eq_some.mp hi
  have hnames := congrArg (fun names => names[i]?) h
  simpa [Keyed.keys, hfield, hentry] using hnames

/-- **The limits show in every drawn field.**  Behind the record itself no record stands on a path
of nested instances more often than it may, and the value is not taller than types may be nested.
In the walk that the generation is, the counter of every call is one more than the number of calls
around it; a call is refused exactly when as many calls are around it as there may be, it is then
the failure of the whole, and no other call leads to such a failure. -/
theorem drawInstance_bounds {σ : Type} [RandomSource σ] {r : Registry} (hr : r.Reached)
    (s : Settings) (source : σ) (name : String) (given : List (String × Value)) :
    (∀ i t, (drawInstance s name given).run ⟨r, source⟩ = (.ok i, t) →
      ∀ e ∈ i.fields, e.1 ∉ Keyed.keys given →
        (∀ p, e.2.HasPath p → ∀ other, (i.record :: p).count other ≤ s.selfReferenceDepth) ∧
          e.2.height ≤ s.nestingDepth) ∧
    ∃ w : Walk σ,
      (Walk.drawInstance s name given).run (.start ⟨r, source⟩) =
        (((drawInstance s name given).run ⟨r, source⟩).1, w) ∧
      w.state = ((drawInstance s name given).run ⟨r, source⟩).2 ∧
      (∀ c ∈ w.calls, c.depth = c.enclosing + 1 ∧
        (c.refused = true ↔ s.nestingDepth ≤ c.enclosing) ∧
        (c.refused = true →
          ((drawInstance s name given).run ⟨r, source⟩).1 = .error (tooDeep s c.position))) ∧
      ∀ position,
        ((drawInstance s name given).run ⟨r, source⟩).1 = .error (tooDeep s position) →
        (∃ c ∈ w.calls, c.refused = true ∧ c.position = position) ∨
          ∃ other e, r.answer other = .error e ∧ tooDeep s position = .error e := by
  constructor
  · intro i t hrun e he hgiven
    obtain ⟨-, hvalid, record, hrecord, hname, hfills⟩ :=
      (drawInstance_gives hr.settled s name given).of_run_ok (Generator.knows_self r source) hrun
    obtain ⟨f, hf⟩ := exists_field hfills.names he
    rw [fst_eq_of_mem_zip hfills.names hf, ← Keyed.get?_eq_none_iff] at hgiven
    have hdrawn := hfills.drawn _ hf hgiven
    -- the record itself is on the chain, and the settings allow that
    have hcount : ∀ other, [name].count other ≤ s.selfReferenceDepth := by
      intro other
      have hpos := hvalid.selfReferenceDepth_pos
      have hle : [name].count other ≤ 1 := List.count_le_length
      omega
    refine ⟨fun p hp other => ?_, hdrawn.height_le⟩
    rw [hname]
    exact hdrawn.keepsTo hcount p hp other
  · have h := Walk.drawInstance_run s name given (⟨r, source⟩ : GeneratorState σ)
    refine ⟨_, Prod.ext h.same rfl, h.state, fun c hc => ?_, fun position he => ?_⟩
    · rcases h.counted c hc with hc | ⟨⟨hdepth, hrefused⟩, hfails⟩
      · cases hc
      · exact ⟨hdepth, hrefused, fun hc => h.same.symm.trans (hfails hc)⟩
    · rcases h.refused _ (h.same.trans he) with helse | ⟨c, hc, hrefused, hposition⟩
      · exact Or.inr (helse position rfl)
      · exact Or.inl ⟨c, hc, hrefused, tooDeep_injective hposition.symm⟩

/-- The limits show in a generated link. -/
theorem link_bounds :
    linkRegistry.Reached ∧
      ∃ (i : Instance Value) (t : GeneratorState SplitMix),
        (drawInstance {} "Link" []).run ⟨linkRegistry, ⟨[], 0⟩⟩ = (.ok i, t) ∧
        ∀ e ∈ i.fields,
          (∀ p, e.2.HasPath p → ∀ other, (i.record :: p).count other ≤ 1) ∧ e.2.height ≤ 32 := by
  obtain ⟨hlimits, -⟩ := drawInstance_bounds linkRegistry_reached {} (⟨[], 0⟩ : SplitMix) "Link" []
  have hok : ((drawInstance {} "Link" []).run
      ⟨linkRegistry, (⟨[], 0⟩ : SplitMix)⟩).1.isOk = true := by decide +kernel
  rcases hrun : (drawInstance {} "Link" []).run ⟨linkRegistry, (⟨[], 0⟩ : SplitMix)⟩ with
    ⟨_ | i, t⟩
  · rw [hrun] at hok
    cases hok
  · exact ⟨linkRegistry_reached, i, t, rfl, fun e he => hlimits i t hrun e he (by simp)⟩

end RecordModel
