/-
**What is written in another order.**

The members of an object can be written in any order, and a conversion looks at most of them by
their keys.  Only the entries of a map are converted as they come; but a map keeps its entries in
the order of their keys, and refuses what is written when it refuses an entry.  So the order of
members decides nothing, with one exception: a day number that breaks a conversion down does so
before the entries behind it are looked at, so that one order may break down where another one is
refused, and a later member of a union then takes it.

Main definitions:

* `Json.Shaped` — values of one shape, with related values in them;
* `Json.Reordered` — values in which the members of objects are written in another order;
* `Conversion.Agree` — two outcomes agree, unless one of them is a breakdown.

Main results:

* `Keyed.ofUnsorted_eq_of_perm` — sorted entries do not depend on the order in which they come;
* `Conversion.Agree.mapM_perm` — steps for things in another order agree if the steps for each do;
* `Conversion.made_agree` — **what is made of values that are written in another order agrees**.
-/

import Mathlib.Data.List.Perm.Basic
import Mathlib.Data.List.Sort
import RecordModel.Proofs.AlikeJson
import RecordModel.Proofs.DayNumbers

set_option relaxedAutoImplicit false
set_option autoImplicit false

namespace RecordModel

/-! ### Entries in another order -/

namespace Keyed

variable {α : Type} {es es' : List (String × α)}

/-- A new key is one entry more, wherever it is put. -/
theorem perm_insert {k : String} (v : α) (h : k ∉ keys es) : (insert k v es).Perm ((k, v) :: es) := by
  induction es with
  | nil => exact .refl _
  | cons e rest ih =>
      obtain ⟨k', w⟩ := e
      simp only [keys_cons, List.mem_cons, not_or] at h
      rw [insert, if_neg (Ne.symm h.1)]
      split
      · exact .refl _
      · exact ((ih h.2).cons _).trans (.swap _ _ _)

/-- Entries under distinct keys are all there when they are sorted. -/
theorem perm_ofUnsorted (h : (keys es).Nodup) : (ofUnsorted es).Perm es := by
  have hfold : ∀ rest acc : List (String × α), (keys (acc ++ rest)).Nodup →
      (rest.foldl (fun acc e => insert e.1 e.2 acc) acc).Perm (acc ++ rest) := by
    intro rest
    induction rest with
    | nil =>
        intro acc _
        rw [List.append_nil]
        exact .refl _
    | cons e rest ih =>
        intro acc hnodup
        have hmoved : (acc ++ e :: rest).Perm ((e :: acc) ++ rest) := List.perm_middle
        have hnew : e.1 ∉ keys acc := by
          have hnodup := (hmoved.map Prod.fst).nodup_iff.mp hnodup
          rw [List.cons_append, List.map_cons, List.nodup_cons] at hnodup
          exact fun hmem => hnodup.1 (List.mem_map.mpr
            ((List.mem_map.mp hmem).imp fun x hx => ⟨List.mem_append_left _ hx.1, hx.2⟩))
        have hinsert : (insert e.1 e.2 acc ++ rest).Perm ((e :: acc) ++ rest) :=
          (perm_insert e.2 hnew).append_right rest
        have hall : (acc ++ e :: rest).Perm (insert e.1 e.2 acc ++ rest) :=
          hmoved.trans hinsert.symm
        exact (ih _ ((hall.map Prod.fst).nodup_iff.mp hnodup)).trans hall.symm
  exact hfold es [] h

/-- **Sorted entries do not depend on the order in which they come.** -/
theorem ofUnsorted_eq_of_perm (hperm : es.Perm es') (h : (keys es).Nodup) :
    ofUnsorted es = ofUnsorted es' := by
  have h' : (keys es').Nodup := (hperm.map Prod.fst).nodup_iff.mp h
  have hsorted : ∀ es : List (String × α),
      (ofUnsorted es).Pairwise fun e e' => e.1 < e'.1 := fun es =>
    List.pairwise_map.mp (sorted_keys_ofUnsorted es)
  refine List.Perm.eq_of_pairwise (fun a b _ _ hab hba => ?_) (hsorted es) (hsorted es')
    ((perm_ofUnsorted h).trans (hperm.trans (perm_ofUnsorted h').symm))
  exact absurd hba (String.lt_asymm hab)

/-- Entries under the same distinct keys, with related values, correspond in another order. -/
theorem exists_perm_forall₂ {R : α → α → Prop} (hnodup : (keys es).Nodup)
    (hkeys : (keys es).Perm (keys es')) (h : ∀ k, Option.Rel R (get? k es) (get? k es')) :
    ∃ mid, es.Perm mid ∧ List.Forall₂ (EntryRel R) mid es' := by
  have hes : List.Forall₂ (fun k (e : String × α) => k = e.1) (keys es) es :=
    List.forall₂_map_left_iff.mpr (List.forall₂_same.mpr fun _ _ => rfl)
  obtain ⟨mid, hmid, hperm⟩ := List.perm_comp_forall₂ hkeys.symm hes
  refine ⟨mid, hperm.symm, ?_⟩
  have hnodup' : (keys es').Nodup := hkeys.nodup_iff.mp hnodup
  have hmid : List.Forall₂ (fun e' e => e'.1 = e.1) es' mid := List.forall₂_map_left_iff.mp hmid
  refine forall₂_imp_of_mem hmid.flip fun e he e' he' hkey => ⟨hkey.symm, ?_⟩
  have hvalue := h e.1
  rwa [get?_of_mem hnodup (hperm.mem_iff.mp he), ← hkey, get?_of_mem hnodup' he',
    Option.rel_some_some] at hvalue

end Keyed

/-! ### Reordered values -/

namespace Json

theorem wellFormedItems_iff {js : List Json} : WellFormedItems js ↔ ∀ j ∈ js, j.WellFormed := by
  induction js with
  | nil => simp [WellFormedItems]
  | cons j js ih => rw [WellFormedItems, ih, List.forall_mem_cons]

theorem wellFormedMembers_iff {ms : List (String × Json)} :
    WellFormedMembers ms ↔ ∀ m ∈ ms, m.2.WellFormed := by
  induction ms with
  | nil => simp [WellFormedMembers]
  | cons m ms ih => rw [WellFormedMembers, ih, List.forall_mem_cons]

/-- The values are of one shape: they are the same scalar, arrays with related items, or objects with
the same keys and related values. -/
inductive Shaped (R : Json → Json → Prop) : Json → Json → Prop
  | null : Shaped R .null .null
  | boolean (b : Bool) : Shaped R (.boolean b) (.boolean b)
  | integer (n : Int) : Shaped R (.integer n) (.integer n)
  | float (x : Binary64) : Shaped R (.float x) (.float x)
  | string (s : String) : Shaped R (.string s) (.string s)
  | array {js js' : List Json} : List.Forall₂ R js js' → Shaped R (.array js) (.array js')
  | object {ms ms' : List (String × Json)} : (Keyed.keys ms).Perm (Keyed.keys ms') →
      (∀ k, Option.Rel R (Keyed.get? k ms) (Keyed.get? k ms')) →
      Shaped R (.object ms) (.object ms')

/-- A value is of its own shape when what is in it is related to itself. -/
theorem Shaped.refl {R : Json → Json → Prop} (hR : ∀ j, R j j) (j : Json) : Shaped R j j := by
  cases j with
  | null => exact .null
  | boolean b => exact .boolean b
  | integer n => exact .integer n
  | float x => exact .float x
  | string s => exact .string s
  | array js => exact .array (List.forall₂_same.mpr fun j _ => hR j)
  | object ms =>
      refine .object (.refl _) fun k => ?_
      cases Keyed.get? k ms with
      | none => exact .none
      | some j => exact .some (hR j)

/-- Every value is alike to itself. -/
theorem Alike.refl (j : Json) : j.Alike (· = ·) j := by
  induction hn : sizeOf j using Nat.strongRecOn generalizing j with
  | _ n ih =>
      subst hn
      cases j with
      | null => exact .null
      | boolean b => exact .boolean b
      | integer n => exact .integer n
      | float x => exact .float rfl
      | string s => exact .string s
      | array js =>
          refine .array rfl fun i j j' hj hj' => ?_
          cases hj.symm.trans hj'
          exact ih _ (sizeOf_lt_array (List.mem_of_getElem? hj)) j rfl
      | object ms =>
          refine .object (.refl _) fun k j j' hj hj' => ?_
          cases hj.symm.trans hj'
          exact ih _ (sizeOf_lt_object (Keyed.mem_of_get? hj)) j rfl

theorem Alike.of_perm {ms ms' : List (String × Json)} (hperm : ms.Perm ms')
    (h : (Keyed.keys ms).Nodup) : (Json.object ms).Alike (· = ·) (.object ms') := by
  have hkeys : (Keyed.keys ms).Perm (Keyed.keys ms') := hperm.map Prod.fst
  refine .object hkeys fun k j j' hj hj' => ?_
  have hmem : (k, j') ∈ ms := hperm.mem_iff.mpr (Keyed.mem_of_get? hj')
  cases hj.symm.trans (Keyed.get?_of_mem h hmem)
  exact .refl _

/-- The values are alike, and no object in them has a key twice: the members of objects are written
in another order, at any depth. -/
structure Reordered (j j' : Json) : Prop where
  wellFormed : j.WellFormed
  alike : Alike (· = ·) j j'

/-- Reordered values are of one shape, with reordered values in them. -/
theorem Reordered.shaped {j j' : Json} (h : Reordered j j') : Shaped Reordered j j' := by
  obtain ⟨hwell, halike⟩ := h
  cases j with
  | array js =>
      obtain ⟨js', rfl, hitems⟩ := alike_array_iff.mp halike
      have hwell := wellFormedItems_iff.mp hwell
      exact .array (forall₂_imp_of_mem hitems fun a ha _ _ h => ⟨hwell a ha, h⟩)
  | object ms =>
      obtain ⟨ms', rfl, hkeys, hvalues⟩ := alike_object_iff.mp halike
      have hwell := wellFormedMembers_iff.mp hwell.2
      refine .object hkeys fun k => Keyed.rel_get?_of_perm hkeys fun v v' hv hv' => ?_
      have hvalue := hvalues k
      rw [hv, hv', Option.rel_some_some] at hvalue
      exact ⟨hwell _ (Keyed.mem_of_get? hv), hvalue⟩
  | float x =>
      cases halike with
      | float hsame => exact hsame ▸ .float x
  | _ =>
      cases halike
      constructor

theorem Reordered.members {ms ms' : List (String × Json)}
    (h : Reordered (.object ms) (.object ms')) :
    (Keyed.keys ms).Perm (Keyed.keys ms') ∧
      ∀ k, Option.Rel Reordered (Keyed.get? k ms) (Keyed.get? k ms') := by
  cases h.shaped with
  | object hkeys hvalues => exact ⟨hkeys, hvalues⟩

end Json

namespace Conversion

/-! ### Outcomes that agree -/

/-- The outcomes are related values or refusals, unless one of them is a breakdown. -/
inductive Agree {α β : Type} (S : α → β → Prop) :
    Except (Option Breakdown) α → Except (Option Breakdown) β → Prop
  | made {a : α} {b : β} : S a b → Agree S (.ok a) (.ok b)
  | refused : Agree S (.error none) (.error none)
  | brokenLeft (b : Breakdown) (y : Except (Option Breakdown) β) : Agree S (.error (some b)) y
  | brokenRight (x : Except (Option Breakdown) α) (b : Breakdown) : Agree S x (.error (some b))

namespace Agree

variable {α β γ δ : Type} {S : α → β → Prop} {T : γ → δ → Prop}

theorem refl {x : Except (Option Breakdown) α} : Agree (· = ·) x x := by
  cases x with
  | ok a => exact .made rfl
  | error fault =>
      cases fault with
      | none => exact .refused
      | some b => exact .brokenLeft b _

theorem imp {x : Except (Option Breakdown) α} {y : Except (Option Breakdown) β} (h : Agree S x y)
    {S' : α → β → Prop} (hS : ∀ a b, S a b → S' a b) : Agree S' x y := by
  cases h with
  | made hab => exact .made (hS _ _ hab)
  | refused => exact .refused
  | brokenLeft b y => exact .brokenLeft b _
  | brokenRight x b => exact .brokenRight _ b

theorem exists_ok_iff {x : Except (Option Breakdown) α} {y : Except (Option Breakdown) β}
    (h : Agree S x y) (hx : ∀ b, x ≠ .error (some b)) (hy : ∀ b, y ≠ .error (some b)) :
    (∃ a, x = .ok a) ↔ ∃ b, y = .ok b := by
  cases h with
  | @made a b _ => exact ⟨fun _ => ⟨b, rfl⟩, fun _ => ⟨a, rfl⟩⟩
  | refused => exact ⟨nofun, nofun⟩
  | brokenLeft b y => exact absurd rfl (hx b)
  | brokenRight x b => exact absurd rfl (hy b)

theorem bind {x : Except (Option Breakdown) α} {y : Except (Option Breakdown) β} (h : Agree S x y)
    {f : α → Except (Option Breakdown) γ} {g : β → Except (Option Breakdown) δ}
    (hfg : ∀ a b, S a b → Agree T (f a) (g b)) : Agree T (x >>= f) (y >>= g) := by
  cases h with
  | made hab => exact hfg _ _ hab
  | refused => exact .refused
  | brokenLeft b y => exact .brokenLeft b _
  | brokenRight x b => exact .brokenRight _ b

theorem map {x : Except (Option Breakdown) α} {y : Except (Option Breakdown) β} (h : Agree S x y)
    {f : α → γ} {g : β → δ} (hfg : ∀ a b, x = .ok a → y = .ok b → S a b → T (f a) (g b)) :
    Agree T (f <$> x) (g <$> y) := by
  cases h with
  | made hab => exact .made (hfg _ _ rfl rfl hab)
  | refused => exact .refused
  | brokenLeft b y => exact .brokenLeft b _
  | brokenRight x b => exact .brokenRight _ b

theorem orNext {x x' : Except (Option Breakdown) α} {y y' : Except (Option Breakdown) β}
    (h : Agree S x y) (h' : Agree S x' y') :
    Agree S (Conversion.orNext x x') (Conversion.orNext y y') := by
  cases h with
  | made hab => exact .made hab
  | refused => exact h'
  | brokenLeft b y => exact .brokenLeft b _
  | brokenRight x b => exact .brokenRight _ b

theorem mapM {f : γ → Except (Option Breakdown) α} {g : δ → Except (Option Breakdown) β}
    {cs : List γ} {ds : List δ} (h : List.Forall₂ (fun c d => Agree S (f c) (g d)) cs ds) :
    Agree (List.Forall₂ S) (cs.mapM f) (ds.mapM g) := by
  induction h with
  | nil => exact .made .nil
  | cons hcd _ ih =>
      rw [List.mapM_cons, List.mapM_cons]
      exact hcd.bind fun a b hab => ih.map fun _ _ _ _ hrest => .cons hab hrest

end Agree

/-- Steps that are taken give the values of each of them. -/
theorem mapM_eq_ok_iff {ε α β : Type} {f : α → Except ε β} {as : List α} {bs : List β} :
    as.mapM f = .ok bs ↔ List.Forall₂ (fun a b => f a = .ok b) as bs := by
  induction as generalizing bs with
  | nil =>
      rw [List.mapM_nil, List.forall₂_nil_left_iff]
      exact ⟨fun h => (Except.ok.inj h).symm, fun h => h ▸ rfl⟩
  | cons a as ih =>
      rw [List.mapM_cons]
      constructor
      · intro h
        obtain ⟨b, hb, h⟩ := exists_of_bind_eq_ok h
        obtain ⟨bs, hbs, h⟩ := exists_of_bind_eq_ok h
        cases h
        exact .cons hb (ih.mp hbs)
      · rintro (_ | ⟨hb, hbs⟩)
        rw [hb, ih.mpr hbs]
        rfl

theorem exists_mapM_of_perm {ε α β : Type} {f : α → Except ε β} {as mid : List α} {bs : List β}
    (hperm : as.Perm mid) (h : as.mapM f = .ok bs) :
    ∃ bs', mid.mapM f = .ok bs' ∧ bs.Perm bs' := by
  obtain ⟨bs', hmid, hbs⟩ := List.perm_comp_forall₂ hperm.symm (mapM_eq_ok_iff.mp h)
  exact ⟨bs', mapM_eq_ok_iff.mpr hmid, hbs.symm⟩

/-- **Steps for things in another order agree if the steps for each of them do.**  The values come in
that order. -/
theorem Agree.mapM_perm {α β γ δ : Type} {S : α → β → Prop}
    {f : γ → Except (Option Breakdown) α} {g : δ → Except (Option Breakdown) β}
    {cs mid : List γ} {ds : List δ} (hperm : cs.Perm mid)
    (h : List.Forall₂ (fun c d => Agree S (f c) (g d)) mid ds) :
    Agree (fun as bs => ∃ as', as.Perm as' ∧ List.Forall₂ S as' bs) (cs.mapM f) (ds.mapM g) := by
  cases hcs : cs.mapM f with
  | ok as =>
      obtain ⟨as', hmid, has⟩ := exists_mapM_of_perm hperm hcs
      have hagree := Agree.mapM h
      rw [hmid] at hagree
      generalize ds.mapM g = y at hagree ⊢
      cases hagree with
      | made hbs => exact .made ⟨as', has, hbs⟩
      | brokenRight _ b => exact .brokenRight _ b
  | error fault =>
      cases fault with
      | some b => exact .brokenLeft b _
      | none =>
          -- one of the steps is a refusal, and its partner is no value
          obtain ⟨before, c, after, rfl, -, hc⟩ := mapM_eq_error_iff.mp hcs
          obtain ⟨d, hd, hcd⟩ := exists_right_of_forall₂ h (hperm.mem_iff.mp (by simp : c ∈ _))
          cases hds : ds.mapM g with
          | error fault =>
              cases fault with
              | none => exact .refused
              | some b => exact .brokenRight _ b
          | ok bs =>
              obtain ⟨b, -, hb⟩ := exists_right_of_forall₂ (mapM_eq_ok_iff.mp hds) hd
              rw [hc, hb] at hcd
              cases hcd

/-! ### What is made -/

variable {records records' : List DeclaredRecord} {owner : String} {t : DeclaredType}
  {raw raw' : Json}

open Json (Reordered)

theorem madeScalar_array (t : DeclaredType) (js : List Json) :
    madeScalar t (.array js) = .error none := by
  cases t <;> rfl

theorem madeScalar_object (t : DeclaredType) (ms : List (String × Json)) :
    madeScalar t (.object ms) = .error none := by
  cases t <;> rfl

theorem madeScalar_eq (h : Reordered raw raw') (t : DeclaredType) :
    madeScalar t raw = madeScalar t raw' := by
  cases h.shaped with
  | array _ => rw [madeScalar_array, madeScalar_array]
  | object _ _ => rw [madeScalar_object, madeScalar_object]
  | _ => rfl

/-- Reordered values name the same record. -/
theorem tagOfValue?_eq (h : Reordered raw raw') : tagOfValue? raw = tagOfValue? raw' := by
  cases h.shaped with
  | object _ hvalues =>
      have hvalue := hvalues tagKey
      rw [tagOfValue?, tagOfValue?, tagOf?, tagOf?]
      generalize Keyed.get? tagKey _ = tag at hvalue
      generalize Keyed.get? tagKey _ = tag' at hvalue
      cases hvalue with
      | none => rfl
      | some htag => cases htag.shaped <;> rfl
  | _ => rfl

/-- An object has a fault in one order exactly when it has one in another order. -/
theorem objectFault?_isSome_eq {ms ms' : List (String × Json)}
    (h : Reordered (.object ms) (.object ms')) (name : String) (fields : List DeclaredField) :
    (objectFault? name fields ms).isSome = (objectFault? name fields ms').isSome := by
  have htag : tagOf? ms = tagOf? ms' := tagOfValue?_eq h
  rw [objectFault?, objectFault?, htag]
  cases (tagOf? ms').filter (· ≠ name) with
  | some tag => rfl
  | none =>
      dsimp only
      rw [Option.isSome_map, Option.isSome_map, Bool.eq_iff_iff, List.find?_isSome,
        List.find?_isSome]
      simp only [h.members.1.mem_iff]

/-- The fields that have a member have one in another order, with what is written in it. -/
theorem forall₂_present {ms ms' : List (String × Json)}
    (h : ∀ k, Option.Rel Reordered (Keyed.get? k ms) (Keyed.get? k ms'))
    (fields : List DeclaredField) :
    List.Forall₂ (fun p p' => p.1 = p'.1 ∧ Reordered p.2 p'.2) (present ms fields)
      (present ms' fields) := by
  induction fields with
  | nil => exact .nil
  | cons f fields ih =>
      rw [present, present, List.filterMap_cons, List.filterMap_cons]
      have hvalue := h f.name
      generalize Keyed.get? f.name ms = value at hvalue
      generalize Keyed.get? f.name ms' = value' at hvalue
      cases hvalue with
      | none => exact ih
      | some hraw => exact .cons ⟨rfl, hraw⟩ ih

theorem attempt_agree {ts : List DeclaredType}
    (h : ∀ t ∈ ts, Agree (· = ·) (made records owner t raw) (made records' owner t raw')) :
    Agree (· = ·) (attempt records owner raw .document ts)
      (attempt records' owner raw' .document ts) := by
  induction ts with
  | nil => exact .refused
  | cons t ts ih =>
      obtain ⟨ht, hts⟩ := List.forall_mem_cons.mp h
      rw [attempt_cons, attempt_cons]
      exact Agree.orNext ht (ih hts)

theorem made_agree_array {items : DeclaredType} (hi : t.items? = some items) {js js' : List Json}
    (h : List.Forall₂ (fun j j' => Agree (· = ·) (made records owner items j)
      (made records' owner items j')) js js') :
    Agree (· = ·) (made records owner t (.array js)) (made records' owner t (.array js')) := by
  rw [made_array hi, made_array hi]
  refine (Agree.mapM h).map fun vs ws _ _ hvs => ?_
  rw [List.forall₂_eq_eq_eq] at hvs
  rw [hvs]

/-- What is made of the entries of a map agrees, since the map sorts them. -/
theorem made_agree_dict {values : DeclaredType} {ms ms' : List (String × Json)}
    (hms : Reordered (.object ms) (.object ms'))
    (h : ∀ m ∈ ms, ∀ m', Reordered m.2 m' → Agree (· = ·) (made records owner values m.2)
      (made records' owner values m')) :
    Agree (· = ·) (made records owner (.dict values) (.object ms))
      (made records' owner (.dict values) (.object ms')) := by
  obtain ⟨hkeys, hvalues⟩ := hms.members
  have hnodup : (Keyed.keys ms).Nodup := hms.wellFormed.1
  obtain ⟨mid, hperm, hmid⟩ := Keyed.exists_perm_forall₂ hnodup hkeys hvalues
  rw [made_dict, made_dict]
  refine (Agree.mapM_perm (S := (· = ·)) hperm (forall₂_imp_of_mem hmid fun m hm m' _ hrel => ?_)).map
    fun vs ws hvs _ hws => ?_
  · obtain ⟨hkey, hraw⟩ := hrel
    refine (h m (hperm.mem_iff.mpr hm) m'.2 hraw).map fun v w _ _ hvw => ?_
    rw [hkey, hvw]
  · obtain ⟨us, hus, hws⟩ := hws
    rw [List.forall₂_eq_eq_eq] at hws
    subst hws
    have hkeys : Keyed.keys vs = Keyed.keys ms := by
      have hentries := (mapM_eq_ok_iff.mp hvs).flip
      rw [Keyed.keys, Keyed.keys, ← List.forall₂_eq_eq_eq, List.forall₂_map_left_iff,
        List.forall₂_map_right_iff]
      refine hentries.imp fun e m he => ?_
      obtain ⟨v, -, rfl⟩ := exists_of_map_eq_ok he
      rfl
    exact congrArg Value.map (Keyed.ofUnsorted_eq_of_perm hus (hkeys ▸ hnodup))

/-- What is made of an object for a record agrees when it does field by field. -/
theorem made_agree_record {name : String} (hname : t.record? owner = some name)
    (hrecords : ∀ name, records.find? (·.name = name) = records'.find? (·.name = name))
    {ms ms' : List (String × Json)} (hms : Reordered (.object ms) (.object ms'))
    (h : ∀ t, ∀ m ∈ ms, ∀ m', Reordered m.2 m' → Agree (· = ·) (made records name t m.2)
      (made records' name t m')) :
    Agree (· = ·) (made records owner t (.object ms)) (made records' owner t (.object ms')) := by
  rw [made_object hname, made_object hname, madeObject, madeObject, hrecords]
  cases records'.find? (·.name = name) with
  | none => exact .refused
  | some declared =>
      dsimp only
      have hfault := objectFault?_isSome_eq hms name declared.fields
      cases hleft : objectFault? name declared.fields ms with
      | some fault =>
          rw [hleft] at hfault
          obtain ⟨fault', hright⟩ := Option.isSome_iff_exists.mp hfault.symm
          rw [hright]
          exact .refused
      | none =>
          rw [hleft] at hfault
          rw [Option.isSome_eq_false_iff.mp hfault.symm |> Option.isNone_iff_eq_none.mp]
          have hfields := forall₂_present hms.members.2 declared.fields
          refine (Agree.mapM (S := (· = ·)) (forall₂_imp_of_mem hfields fun p hp p' _ hrel => ?_)).map
            fun vs ws _ _ hvs => ?_
          · obtain ⟨f, raw⟩ := p
            obtain ⟨f', raw'⟩ := p'
            obtain ⟨rfl, hraw⟩ : f = f' ∧ Reordered raw raw' := hrel
            refine (h f.type _ (mem_of_mem_present hp) raw' hraw).map fun v w _ _ hvw => ?_
            rw [hvw]
          · rw [List.forall₂_eq_eq_eq] at hvs
            rw [hvs]

/-- **What is made of values that are written in another order agrees**: it is the same value, or
both are refused, unless one of them breaks down. -/
theorem made_agree
    (hrecords : ∀ name, records.find? (·.name = name) = records'.find? (·.name = name))
    (h : Reordered raw raw') :
    Agree (· = ·) (made records owner t raw) (made records' owner t raw') := by
  induction hn : sizeOf raw using Nat.strongRecOn generalizing owner t raw raw' with
  | _ n ih =>
      subst hn
      by_cases hraw : raw = .null
      · subst hraw
        cases h.shaped
        rw [made_null, made_null]
        exact .refl
      have hraw' : raw' ≠ .null := by
        rintro rfl
        cases h.shaped
        exact hraw rfl
      induction t using DeclaredType.induction_members with
      | union ts ihmember =>
          have hoffered : offered owner raw ts = offered owner raw' ts := by
            rw [offered, offered, tagOfValue?_eq h]
          rw [made_union hraw, made_union hraw', ← hoffered]
          exact attempt_agree fun t ht => ihmember t (List.mem_filter.mp ht).1
      | optional inner ihinner =>
          rw [made_optional hraw, made_optional hraw']
          exact ihinner
      | plain t ht =>
          have hshaped := h.shaped
          cases t with
          | union ts => cases ht
          | optional inner => cases ht
          | list items | tuple items =>
              cases hshaped with
              | array hitems =>
                  refine made_agree_array rfl (forall₂_imp_of_mem hitems fun j hj j' _ hj' => ?_)
                  exact ih _ (Json.sizeOf_lt_array hj) hj' rfl
              | _ =>
                  rw [made_not_array rfl fun _ => Json.noConfusion,
                    made_not_array rfl fun _ => Json.noConfusion]
                  exact .refused
          | dict values =>
              cases hshaped with
              | object =>
                  exact made_agree_dict h fun m hm m' hm' => ih _ (Json.sizeOf_lt_object hm) hm' rfl
              | _ =>
                  rw [made_not_map fun _ => Json.noConfusion, made_not_map fun _ => Json.noConfusion]
                  exact .refused
          | record name | self =>
              cases hshaped with
              | object =>
                  exact made_agree_record rfl hrecords h fun t m hm m' hm' =>
                    ih _ (Json.sizeOf_lt_object hm) hm' rfl
              | _ =>
                  rw [made_not_record rfl fun _ => Json.noConfusion,
                    made_not_record rfl fun _ => Json.noConfusion]
                  exact .refused
          | _ =>
              rw [made_scalar rfl hraw, made_scalar rfl hraw', madeScalar_eq h]
              exact .refl

end Conversion

end RecordModel
