/-
**Lists of keyed entries.**

An object of a JSON document, the entries of a map value, the fields of an instance and the
records of a registry are all lists of pairs, a key and what it names.  They differ in one thing:
in the place where a new key goes.  `Keyed.put` keeps the order of first arrival and
`Keyed.insert` keeps the keys in ascending order; in both a key that is already there keeps its
place and takes the new value.

Main definitions:

* `Keyed.get?` — the value of the first entry with a key;
* `Keyed.put`, `Keyed.ofArrivals` — setting a key in order of arrival, and a whole list of them;
* `Keyed.insert`, `Keyed.ofUnsorted` — setting a key in order of the keys, and a whole list of them.

Main results:

* `Keyed.get?_put`, `Keyed.get?_insert` — a key that was set reads back, the others are left alone;
* `Keyed.keys_put`, `Keyed.nodup_keys_ofArrivals` — the keys after setting one, and that no key
  comes twice;
* `Keyed.mem_keys_insert`, `Keyed.sorted_keys_ofUnsorted` — the keys after setting one, and that
  they ascend;
* `Keyed.mem_ofArrivals`, `Keyed.get?_ofArrivals` — the entries after setting a whole list;
* `Keyed.ofArrivals_of_nodup`, `Keyed.ofUnsorted_of_sorted` — entries that are in their places
  already are left alone.
-/

set_option relaxedAutoImplicit false
set_option autoImplicit false

namespace RecordModel.Keyed

variable {α : Type}

/-! ### Reading -/

/-- The value of the first entry with the key `k`. -/
def get? (k : String) : List (String × α) → Option α
  | [] => none
  | (k', v) :: rest => if k' = k then some v else get? k rest

/-- The keys, in order. -/
def keys (entries : List (String × α)) : List String := entries.map Prod.fst

@[simp] theorem get?_nil (k : String) : get? k ([] : List (String × α)) = none := rfl

theorem get?_cons (k k' : String) (v : α) (rest : List (String × α)) :
    get? k ((k', v) :: rest) = if k' = k then some v else get? k rest := rfl

@[simp] theorem keys_nil : keys ([] : List (String × α)) = [] := rfl

@[simp] theorem keys_cons (k : String) (v : α) (rest : List (String × α)) :
    keys ((k, v) :: rest) = k :: keys rest := rfl

/-- A key has no value exactly when it is not among the keys. -/
theorem get?_eq_none_iff (k : String) (entries : List (String × α)) :
    get? k entries = none ↔ k ∉ keys entries := by
  induction entries with
  | nil => simp
  | cons e rest ih =>
      obtain ⟨k', v⟩ := e
      by_cases h : k' = k
      · simp [get?_cons, h]
      · simp [get?_cons, h, ih, Ne.symm h]

/-- What a key reads is one of the entries. -/
theorem mem_of_get? {k : String} {v : α} {entries : List (String × α)}
    (h : get? k entries = some v) : (k, v) ∈ entries := by
  induction entries with
  | nil => simp at h
  | cons e rest ih =>
      obtain ⟨k', w⟩ := e
      by_cases hk : k' = k
      · simp [get?_cons, hk] at h
        simp [hk, h]
      · simp [get?_cons, hk] at h
        exact List.mem_cons_of_mem _ (ih h)

/-- With distinct keys every entry is the one that is read under its key. -/
theorem get?_of_mem {entries : List (String × α)} (h : (keys entries).Nodup) {e : String × α}
    (he : e ∈ entries) : get? e.1 entries = some e.2 := by
  induction entries with
  | nil => cases he
  | cons e' rest ih =>
      obtain ⟨k, v⟩ := e'
      rw [keys_cons, List.nodup_cons] at h
      rcases List.mem_cons.mp he with rfl | he
      · rw [get?_cons, if_pos rfl]
      · have hne : k ≠ e.1 := fun hk => h.1 (hk ▸ List.mem_map.mpr ⟨e, he, rfl⟩)
        rw [get?_cons, if_neg hne, ih h.2 he]

/-- Sets the key `k` to `v`: in its place if it is there, else behind the others. -/
def put (k : String) (v : α) : List (String × α) → List (String × α)
  | [] => [(k, v)]
  | (k', w) :: rest => if k' = k then (k, v) :: rest else (k', w) :: put k v rest

/-- The entries with every key once, at the place where it came first and with the value that
came last. -/
def ofArrivals (entries : List (String × α)) : List (String × α) :=
  entries.foldl (fun acc e => put e.1 e.2 acc) []

/-- A key that was set reads back; every other key reads as before. -/
theorem get?_put (k k' : String) (v : α) (entries : List (String × α)) :
    get? k' (put k v entries) = if k = k' then some v else get? k' entries := by
  induction entries with
  | nil => simp [put, get?_cons]
  | cons e rest ih =>
      obtain ⟨q, w⟩ := e
      by_cases h : q = k
      · subst h
        by_cases hk : q = k' <;> simp [put, get?_cons, hk]
      · by_cases hq : q = k'
        · subst hq
          simp [put, h, get?_cons, Ne.symm h]
        · simp [put, h, get?_cons, hq, ih]

theorem put_of_not_mem {k : String} (v : α) {entries : List (String × α)}
    (h : k ∉ keys entries) : put k v entries = entries ++ [(k, v)] := by
  induction entries with
  | nil => rfl
  | cons e rest ih =>
      obtain ⟨q, w⟩ := e
      simp only [keys_cons, List.mem_cons, not_or] at h
      rw [put, if_neg (Ne.symm h.1), ih h.2, List.cons_append]

/-- An entry is the one that was set, or was there. -/
theorem mem_put {k : String} {v : α} {e : String × α} {entries : List (String × α)}
    (h : e ∈ put k v entries) : e = (k, v) ∨ e ∈ entries := by
  induction entries with
  | nil => exact Or.inl (List.mem_singleton.mp h)
  | cons f rest ih =>
      obtain ⟨q, w⟩ := f
      rw [put] at h
      split at h
      · exact (List.mem_cons.mp h).imp_right fun h => List.mem_cons_of_mem _ h
      · rcases List.mem_cons.mp h with rfl | h
        · exact Or.inr (List.mem_cons_self ..)
        · exact (ih h).imp_right fun h => List.mem_cons_of_mem _ h

/-- The keys after setting one: the same if it was there, else with it at the end. -/
theorem keys_put (k : String) (v : α) (entries : List (String × α)) :
    keys (put k v entries) = if k ∈ keys entries then keys entries else keys entries ++ [k] := by
  induction entries with
  | nil => simp [put]
  | cons e rest ih =>
      obtain ⟨q, w⟩ := e
      by_cases h : q = k
      · simp [put, h]
      · by_cases hk : k ∈ keys rest <;> simp [put, h, ih, hk, Ne.symm h]

/-- Setting a key keeps the keys distinct. -/
theorem nodup_keys_put (k : String) (v : α) {entries : List (String × α)}
    (h : (keys entries).Nodup) : (keys (put k v entries)).Nodup := by
  rw [keys_put]
  by_cases hk : k ∈ keys entries
  · rwa [if_pos hk]
  · rw [if_neg hk, List.nodup_append]
    refine ⟨h, by simp, ?_⟩
    intro a ha b hb hab
    exact hk (List.mem_singleton.mp hb ▸ hab ▸ ha)

theorem nodup_keys_ofArrivals (entries : List (String × α)) :
    (keys (ofArrivals entries)).Nodup := by
  have h : ∀ acc : List (String × α), (keys acc).Nodup →
      (keys (entries.foldl (fun acc e => put e.1 e.2 acc) acc)).Nodup := by
    induction entries with
    | nil => exact fun _ hacc => hacc
    | cons e rest ih => exact fun _ hacc => ih _ (nodup_keys_put e.1 e.2 hacc)
  exact h [] (by simp)

/-- An entry of a list that was made by setting entries one after the other is one of them. -/
theorem mem_of_mem_foldl {set : String → α → List (String × α) → List (String × α)}
    (hset : ∀ {k : String} {v : α} {e : String × α} {acc : List (String × α)},
      e ∈ set k v acc → e = (k, v) ∨ e ∈ acc)
    {e : String × α} {entries : List (String × α)}
    (h : e ∈ entries.foldl (fun acc e => set e.1 e.2 acc) []) : e ∈ entries := by
  have hfold : ∀ acc : List (String × α),
      e ∈ entries.foldl (fun acc e => set e.1 e.2 acc) acc → e ∈ acc ∨ e ∈ entries := by
    clear h
    induction entries with
    | nil => exact fun acc he => Or.inl he
    | cons x rest ih =>
        intro acc he
        rcases ih _ he with he | he
        · rcases hset he with rfl | he
          · exact Or.inr (List.mem_cons_self ..)
          · exact Or.inl he
        · exact Or.inr (List.mem_cons_of_mem _ he)
  exact (hfold [] h).resolve_left nofun

theorem mem_ofArrivals {e : String × α} {entries : List (String × α)}
    (h : e ∈ ofArrivals entries) : e ∈ entries := mem_of_mem_foldl mem_put h

/-- A key that always arrives with one value has that value. -/
theorem get?_ofArrivals {k : String} {v : α} {entries : List (String × α)}
    (hmem : (k, v) ∈ entries) (hone : ∀ w, (k, w) ∈ entries → w = v) :
    get? k (ofArrivals entries) = some v := by
  have hfold : ∀ acc : List (String × α), get? k acc = some v ∨ (k, v) ∈ entries →
      get? k (entries.foldl (fun acc e => put e.1 e.2 acc) acc) = some v := by
    clear hmem
    induction entries with
    | nil => exact fun acc h => h.resolve_right nofun
    | cons e rest ih =>
        obtain ⟨k', w⟩ := e
        intro acc h
        refine ih (fun w hw => hone w (List.mem_cons_of_mem _ hw)) _ ?_
        rw [get?_put]
        by_cases hk : k' = k
        · rw [if_pos hk, hone w (hk ▸ List.mem_cons_self ..)]
          exact Or.inl rfl
        · rw [if_neg hk]
          refine h.imp_right fun h => ?_
          rcases List.mem_cons.mp h with h | h
          · exact absurd (Prod.mk.inj h).1.symm hk
          · exact h
  exact hfold [] (Or.inr hmem)

/-- Entries that arrive under distinct keys are left alone. -/
theorem ofArrivals_of_nodup {entries : List (String × α)} (h : (keys entries).Nodup) :
    ofArrivals entries = entries := by
  have hfold : ∀ acc rest : List (String × α), (keys (acc ++ rest)).Nodup →
      rest.foldl (fun acc e => put e.1 e.2 acc) acc = acc ++ rest := by
    intro acc rest
    induction rest generalizing acc with
    | nil => simp
    | cons e rest ih =>
        intro hnodup
        have hnew : e.1 ∉ keys acc := by
          rw [keys, List.map_append, List.nodup_append] at hnodup
          exact fun hmem => hnodup.2.2 e.1 hmem e.1 (by simp) rfl
        have hassoc : acc ++ e :: rest = acc ++ [e] ++ rest := by simp
        rw [List.foldl_cons, put_of_not_mem e.2 hnew, ih (acc ++ [e]) (hassoc ▸ hnodup), hassoc]
  exact hfold [] entries h

/-! ### Order of the keys -/

/-- Sets the key `k` to `v` in a list whose keys ascend. -/
def insert (k : String) (v : α) : List (String × α) → List (String × α)
  | [] => [(k, v)]
  | (k', w) :: rest =>
      if k' = k then (k, v) :: rest
      else if k < k' then (k, v) :: (k', w) :: rest
      else (k', w) :: insert k v rest

/-- The entries with ascending keys, each key with the value that came last. -/
def ofUnsorted (entries : List (String × α)) : List (String × α) :=
  entries.foldl (fun acc e => insert e.1 e.2 acc) []

/-- A key that was set reads back; every other key reads as before. -/
theorem get?_insert (k k' : String) (v : α) (entries : List (String × α)) :
    get? k' (insert k v entries) = if k = k' then some v else get? k' entries := by
  induction entries with
  | nil => simp [insert, get?_cons]
  | cons e rest ih =>
      obtain ⟨q, w⟩ := e
      by_cases h : q = k
      · subst h
        by_cases hk : q = k' <;> simp [insert, get?_cons, hk]
      · by_cases hlt : k < q
        · simp [insert, h, hlt, get?_cons]
        · by_cases hq : q = k'
          · subst hq
            simp [insert, h, hlt, get?_cons, Ne.symm h]
          · simp [insert, h, hlt, get?_cons, hq, ih]

/-- The keys after setting one: the one that was set, and those that were there. -/
theorem mem_keys_insert (k k' : String) (v : α) (entries : List (String × α)) :
    k' ∈ keys (insert k v entries) ↔ k' = k ∨ k' ∈ keys entries := by
  induction entries with
  | nil => simp [insert]
  | cons e rest ih =>
      obtain ⟨q, w⟩ := e
      by_cases h : q = k
      · simp [insert, h]
      · by_cases hlt : k < q
        · simp [insert, h, hlt]
        · simp only [insert, h, hlt, if_false, keys_cons, List.mem_cons, ih]
          exact or_left_comm

/-- An entry after setting a key is the one that was set, or was there. -/
theorem mem_insert {k : String} {v : α} {e : String × α} {entries : List (String × α)}
    (h : e ∈ insert k v entries) : e = (k, v) ∨ e ∈ entries := by
  induction entries with
  | nil => exact Or.inl (List.mem_singleton.mp h)
  | cons e' rest ih =>
      obtain ⟨q, w⟩ := e'
      rw [insert] at h
      split at h
      · exact (List.mem_cons.mp h).imp_right (List.mem_cons_of_mem _)
      · split at h
        · exact List.mem_cons.mp h
        · rcases List.mem_cons.mp h with rfl | h
          · exact Or.inr (List.mem_cons_self ..)
          · exact (ih h).imp_right (List.mem_cons_of_mem _)

/-- Setting a new key makes one entry more. -/
theorem length_insert {k : String} (v : α) {entries : List (String × α)}
    (h : k ∉ keys entries) : (insert k v entries).length = entries.length + 1 := by
  induction entries with
  | nil => rfl
  | cons e rest ih =>
      obtain ⟨q, w⟩ := e
      simp only [keys_cons, List.mem_cons, not_or] at h
      rw [insert, if_neg (Ne.symm h.1)]
      split
      · rfl
      · simp [ih h.2]

/-- Setting a key keeps the keys ascending. -/
theorem sorted_keys_insert (k : String) (v : α) {entries : List (String × α)}
    (hs : (keys entries).Pairwise (· < ·)) : (keys (insert k v entries)).Pairwise (· < ·) := by
  induction entries with
  | nil => simp [insert]
  | cons e rest ih =>
      obtain ⟨q, w⟩ := e
      rw [keys_cons, List.pairwise_cons] at hs
      by_cases h : q = k
      · simp only [insert, h, if_true, keys_cons, List.pairwise_cons]
        exact ⟨h ▸ hs.1, hs.2⟩
      · by_cases hlt : k < q
        · simp only [insert, h, hlt, if_true, if_false, keys_cons, List.pairwise_cons,
            List.mem_cons]
          refine ⟨?_, hs⟩
          rintro x (rfl | hx)
          · exact hlt
          · exact String.lt_trans hlt (hs.1 x hx)
        · have hqk : q < k := by
            rcases Decidable.em (q < k) with hqk | hqk
            · exact hqk
            · exact absurd (String.le_antisymm (String.not_lt.mp hlt) (String.not_lt.mp hqk)) h
          simp only [insert, h, hlt, if_false, keys_cons, List.pairwise_cons]
          refine ⟨fun x hx => ?_, ih hs.2⟩
          rcases (mem_keys_insert k x v rest).mp hx with rfl | hx
          · exact hqk
          · exact hs.1 x hx

theorem sorted_keys_ofUnsorted (entries : List (String × α)) :
    (keys (ofUnsorted entries)).Pairwise (· < ·) := by
  have h : ∀ acc : List (String × α), (keys acc).Pairwise (· < ·) →
      (keys (entries.foldl (fun acc e => insert e.1 e.2 acc) acc)).Pairwise (· < ·) := by
    induction entries with
    | nil => exact fun _ hacc => hacc
    | cons e rest ih => exact fun _ hacc => ih _ (sorted_keys_insert e.1 e.2 hacc)
  exact h [] (by simp)

theorem mem_ofUnsorted {e : String × α} {entries : List (String × α)}
    (h : e ∈ ofUnsorted entries) : e ∈ entries := mem_of_mem_foldl mem_insert h

/-- A key behind all others goes behind them. -/
theorem insert_of_lt {k : String} (v : α) {entries : List (String × α)}
    (h : ∀ k' ∈ keys entries, k' < k) : insert k v entries = entries ++ [(k, v)] := by
  induction entries with
  | nil => rfl
  | cons e rest ih =>
      obtain ⟨k', w⟩ := e
      have hlt : k' < k := h k' (by simp)
      have hne : k' ≠ k := fun he => String.lt_irrefl k (he ▸ hlt)
      have hnot : ¬ k < k' := String.lt_asymm hlt
      rw [insert, if_neg hne, if_neg hnot, ih fun k'' hk => h k'' (List.mem_cons_of_mem _ hk),
        List.cons_append]

/-- Entries under ascending keys are left alone. -/
theorem ofUnsorted_of_sorted {entries : List (String × α)} (h : (keys entries).Pairwise (· < ·)) :
    ofUnsorted entries = entries := by
  have hfold : ∀ acc rest : List (String × α), (keys (acc ++ rest)).Pairwise (· < ·) →
      rest.foldl (fun acc e => insert e.1 e.2 acc) acc = acc ++ rest := by
    intro acc rest
    induction rest generalizing acc with
    | nil => simp
    | cons e rest ih =>
        intro hsorted
        have hlast : ∀ k ∈ keys acc, k < e.1 := by
          rw [keys, List.map_append, List.pairwise_append] at hsorted
          exact fun k hk => hsorted.2.2 k hk e.1 (by simp)
        have hassoc : acc ++ e :: rest = acc ++ [e] ++ rest := by simp
        rw [List.foldl_cons, insert_of_lt e.2 hlast, ih (acc ++ [e]) (hassoc ▸ hsorted), hassoc]
  exact hfold [] entries h

theorem nodup_of_sorted {keys : List String} (h : keys.Pairwise (· < ·)) : keys.Nodup := by
  refine List.Pairwise.imp (fun {a b} (hlt : a < b) (he : a = b) => ?_) h
  subst he
  exact String.lt_irrefl a hlt

end RecordModel.Keyed
