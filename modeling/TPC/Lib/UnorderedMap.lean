import Mathlib

/-!
# Unordered maps

* `UnorderedMap`: finite maps, as association lists without double keys;
* `Enumeration`: an order in which the entries of every map are visited;
* `emplace`, `lookup_foldl_emplace`: entries that do not replace others;
* `visitLast`: an order in which a given key comes last;
* **`lookup_foldl_rename`**: renaming the keys injectively while visiting the entries;
  `lookup_foldl_rename_eq`: the last entry of a name wins otherwise;
* `update`, `lookup_foldl_update`: changing the values one by one;
* `distinct`: the elements of a list in the order of their first occurrence.
-/

/-- A finite map from `K` to `V`. -/
abbrev UnorderedMap (K V : Type) : Type := AList fun _ : K => V

namespace UnorderedMap

variable {K K' V : Type}

/-- The number of entries. -/
def size (m : UnorderedMap K V) : ℕ := m.keys.length

/-- The order in which an implementation visits the entries of each map. -/
structure Enumeration (K V : Type) where
  entries : UnorderedMap K V → List (Σ _ : K, V)
  perm : ∀ m, (entries m).Perm m.entries

theorem Enumeration.nodupKeys (order : Enumeration K V) (m : UnorderedMap K V) :
    (order.entries m).NodupKeys := (List.perm_nodupKeys (order.perm m)).mpr m.nodupKeys

variable [DecidableEq K] [DecidableEq K']

theorem Enumeration.dlookup (order : Enumeration K V) (m : UnorderedMap K V) (k : K) :
    (order.entries m).dlookup k = m.lookup k :=
  (List.perm_dlookup k m.nodupKeys (order.perm m).symm).symm

theorem Enumeration.mem_entries (order : Enumeration K V) {m : UnorderedMap K V} {k : K} {v : V} :
    ⟨k, v⟩ ∈ order.entries m ↔ m.lookup k = some v := by
  rw [(order.perm m).mem_iff, AList.mem_lookup_iff.symm, Option.mem_def]

/-- The order of the list, except that the key `k` is visited last. -/
def visitLast (V : Type) (k : K) : Enumeration K V where
  entries m := m.entries.kerase k ++ (m.lookup k).toList.map (Sigma.mk k)
  perm m := by
    cases hv : m.lookup k with
    | none =>
      have hk : k ∉ m.entries.keys := by
        rw [AList.lookup_eq_none, AList.mem_keys] at hv
        exact hv
      rw [List.kerase_of_notMem_keys hk, Option.toList_none, List.map_nil, List.append_nil]
    | some v =>
      have hk : k ∈ m.entries.keys := AList.mem_keys.mp (AList.lookup_isSome.mp (by rw [hv]; rfl))
      obtain ⟨w, l₁, l₂, -, hl, herase⟩ := List.exists_of_kerase hk
      have hw : m.lookup k = some w := AList.mem_lookup_iff.mpr (by rw [hl]; simp)
      obtain rfl : v = w := Option.some.inj (hv.symm.trans hw)
      rw [herase, hl, List.append_assoc]
      exact List.Perm.append_left l₁ (List.perm_append_singleton _ l₂)

theorem getLast?_visitLast {m : UnorderedMap K V} {k : K} {v : V} (h : m.lookup k = some v) :
    ((visitLast V k).entries m).getLast? = some ⟨k, v⟩ := by
  simp [visitLast, h]

/-- Enter a value for a key that has none. -/
def emplace (m : UnorderedMap K V) (k : K) (v : V) : UnorderedMap K V :=
  if k ∈ m then m else m.insert k v

theorem lookup_emplace (m : UnorderedMap K V) (k j : K) (v : V) :
    (m.emplace k v).lookup j = (m.lookup j).or (if k = j then some v else none) := by
  rw [emplace]
  by_cases hk : k ∈ m
  · rw [if_pos hk]
    by_cases hj : k = j
    · subst hj
      obtain ⟨w, hw⟩ := Option.isSome_iff_exists.mp (AList.lookup_isSome.mpr hk)
      rw [hw, Option.some_or]
    · rw [if_neg hj, Option.or_none]
  · rw [if_neg hk]
    by_cases hj : k = j
    · subst hj
      rw [if_pos rfl, AList.lookup_insert, AList.lookup_eq_none.mpr hk, Option.none_or]
    · rw [if_neg hj, Option.or_none, AList.lookup_insert_ne (Ne.symm hj)]

/-- The first entry of a key is the one that stays. -/
theorem lookup_foldl_emplace (k : K) : ∀ (l : List (Σ _ : K, V)) (m : UnorderedMap K V),
    (l.foldl (fun m e => m.emplace e.1 e.2) m).lookup k = (m.lookup k).or (l.dlookup k)
  | [], m => (Option.or_none).symm
  | ⟨j, v⟩ :: l, m => by
    rw [List.foldl_cons, lookup_foldl_emplace k l, lookup_emplace, Option.or_assoc]
    by_cases hj : j = k
    · subst hj
      rw [if_pos rfl, List.dlookup_cons_eq, Option.some_or]
    · rw [if_neg hj, List.dlookup_cons_ne _ _ (Ne.symm hj), Option.none_or]

/-- Enter one entry under the name of its key, if it has one. -/
def rename (name : K → Option K') (m : UnorderedMap K' V) (e : Σ _ : K, V) : UnorderedMap K' V :=
  match name e.1 with
  | some k' => m.insert k' e.2
  | none => m

/-- **Renaming the keys of a map**: when no other key has the name, the value is found under it. -/
theorem lookup_foldl_rename {name : K → Option K'} {k : K} {k' : K'} (hk : name k = some k')
    (hinj : ∀ j, name j = some k' → j = k) :
    ∀ (l : List (Σ _ : K, V)) (m : UnorderedMap K' V), l.NodupKeys →
      (l.foldl (rename name) m).lookup k' = (l.dlookup k).or (m.lookup k')
  | [], m, _ => rfl
  | ⟨j, v⟩ :: l, m, hl => by
    rw [List.nodupKeys_cons] at hl
    rw [List.foldl_cons, lookup_foldl_rename hk hinj l _ hl.2]
    by_cases hj : j = k
    · subst hj
      rw [List.dlookup_eq_none.mpr hl.1, List.dlookup_cons_eq, rename, hk, AList.lookup_insert]
      rfl
    · rw [List.dlookup_cons_ne _ _ (Ne.symm hj), rename]
      cases hn : name j with
      | none => rfl
      | some n =>
        have hne : k' ≠ n := fun h => hj (hinj j (by rw [hn, h]))
        dsimp only
        rw [AList.lookup_insert_ne hne]

omit [DecidableEq K] in
/-- Whatever the names are, the last entry of each one stays. -/
theorem lookup_foldl_rename_eq (name : K → Option K') (k' : K') (l : List (Σ _ : K, V))
    (m : UnorderedMap K' V) : (l.foldl (rename name) m).lookup k' =
      ((l.filter fun e => name e.1 = some k').getLast?.map Sigma.snd).or (m.lookup k') := by
  induction l using List.reverseRecOn with
  | nil => rfl
  | append_singleton l e ih =>
    rw [List.foldl_concat, List.filter_append]
    by_cases hn : name e.1 = some k'
    · rw [List.filter_singleton]
      simp [rename, hn]
    · have hrename : (rename name (l.foldl (rename name) m) e).lookup k' =
          (l.foldl (rename name) m).lookup k' := by
        unfold rename
        cases hj : name e.1 with
        | none => rfl
        | some j =>
          have hne : k' ≠ j := fun h => hn (by rw [hj, h])
          exact AList.lookup_insert_ne hne
      rw [hrename, ih, List.filter_singleton]
      simp [hn]

/-- Change the value of one entry, if there is a new one. -/
def update (value : K → V → Option V) (m : UnorderedMap K V) (e : Σ _ : K, V) : UnorderedMap K V :=
  match value e.1 e.2 with
  | some v => m.insert e.1 v
  | none => m

/-- **Changing the values**: every entry is changed by itself. -/
theorem lookup_foldl_update (value : K → V → Option V) (k : K) :
    ∀ (l : List (Σ _ : K, V)) (m : UnorderedMap K V), l.NodupKeys →
      (l.foldl (update value) m).lookup k = ((l.dlookup k).bind (value k)).or (m.lookup k)
  | [], m, _ => rfl
  | ⟨j, v⟩ :: l, m, hl => by
    rw [List.nodupKeys_cons] at hl
    rw [List.foldl_cons, lookup_foldl_update value k l _ hl.2]
    by_cases hj : j = k
    · subst hj
      rw [List.dlookup_eq_none.mpr hl.1, List.dlookup_cons_eq, update]
      cases hv : value j v with
      | none => simp [hv]
      | some w => simp [hv]
    · rw [List.dlookup_cons_ne _ _ (Ne.symm hj), update]
      cases hv : value j v with
      | none => rfl
      | some w =>
        dsimp only
        rw [AList.lookup_insert_ne (Ne.symm hj)]

theorem size_insert_of_mem {m : UnorderedMap K V} {k : K} (h : k ∈ m) (v : V) :
    size (m.insert k v) = m.size := by
  rw [size, AList.keys_insert, size]
  exact (List.perm_cons_erase (AList.mem_keys.mp h)).length_eq.symm

theorem keys_insert_of_notMem {m : UnorderedMap K V} {k : K} (h : k ∉ m) (v : V) :
    (m.insert k v).keys = k :: m.keys := by
  rw [AList.keys_insert, List.erase_of_not_mem (mt AList.mem_keys.mpr h)]

end UnorderedMap

namespace List

variable {α : Type} [DecidableEq α]

/-- The elements of a list, each where it first occurs. -/
def distinct (l : List α) : List α := l.reverse.dedup.reverse

@[simp] theorem mem_distinct {l : List α} {a : α} : a ∈ l.distinct ↔ a ∈ l := by
  simp [distinct]

theorem distinct_concat_of_mem {l : List α} {a : α} (h : a ∈ l) :
    (l ++ [a]).distinct = l.distinct := by
  rw [distinct, reverse_append, reverse_singleton, singleton_append,
    dedup_cons_of_mem (mem_reverse.mpr h), distinct]

theorem distinct_concat_of_notMem {l : List α} {a : α} (h : a ∉ l) :
    (l ++ [a]).distinct = l.distinct ++ [a] := by
  rw [distinct, reverse_append, reverse_singleton, singleton_append,
    dedup_cons_of_notMem (mt mem_reverse.mp h), reverse_cons, distinct]

theorem exists_distinct_append (l m : List α) : ∃ rest, (l ++ m).distinct = l.distinct ++ rest ∧ ∀ a ∈ rest, a ∉ l := by
  induction m using reverseRecOn with
  | nil => exact ⟨[], by rw [append_nil, append_nil], nofun⟩
  | append_singleton m a ih =>
    obtain ⟨rest, hrest, hnew⟩ := ih
    rw [← append_assoc]
    by_cases ha : a ∈ l ++ m
    · exact ⟨rest, by rw [distinct_concat_of_mem ha, hrest], hnew⟩
    · refine ⟨rest ++ [a], by rw [distinct_concat_of_notMem ha, hrest, append_assoc], fun b hb => ?_⟩
      rcases mem_append.mp hb with hb | hb
      · exact hnew b hb
      · rw [mem_singleton.mp hb]
        exact fun hl => ha (mem_append_left m hl)

theorem distinct_of_nodup {l : List α} (h : l.Nodup) : l.distinct = l := by
  rw [distinct, dedup_eq_self.mpr (nodup_reverse.mpr h), reverse_reverse]

end List
