import Mathlib

/-!
# Segments of a buffer

* `Segment xs b l`: the list `l` stands in `xs` from index `b` on; `segment_append`;
* `isChain_succ_of_convex`, `forall_mem_of_isChain`, `exists_segments_of_forall₂`: lists of consecutive numbers,
  chains, lists of segments;
* `getElem?_flatMap_map`: reading a table that was stored row by row;
* `steps`: the steps from first to last in each of two adjacent segments, summed; `one_le_steps`,
  `steps_le`.
-/

/-- The list `l` stands in `xs` from index `b` on. -/
def Segment {α : Type} (xs : List α) (b : ℕ) (l : List α) : Prop :=
  ∀ k a, l[k]? = some a → xs[b + k]? = some a

namespace Segment

variable {α β γ : Type} {xs l l' : List α} {b : ℕ}

theorem segment_append : Segment xs b (l ++ l') ↔ Segment xs b l ∧ Segment xs (b + l.length) l' := by
  constructor
  · refine fun h => ⟨fun k a hk => h k a ?_, fun k a hk => ?_⟩
    · rw [List.getElem?_append_left (List.getElem?_eq_some_iff.mp hk).1, hk]
    · rw [Nat.add_assoc]
      refine h _ a ?_
      rw [List.getElem?_append_right (Nat.le_add_right _ _), Nat.add_sub_cancel_left, hk]
  · rintro ⟨h, h'⟩ k a hk
    by_cases hlt : k < l.length
    · exact h k a (by rwa [List.getElem?_append_left hlt] at hk)
    · rw [List.getElem?_append_right (Nat.le_of_not_lt hlt)] at hk
      have := h' _ a hk
      rwa [Nat.add_assoc, Nat.add_sub_cancel' (Nat.le_of_not_lt hlt)] at this

theorem segment_self (xs : List α) : Segment xs 0 xs := by
  intro k a hk
  rwa [Nat.zero_add]

theorem getElem? (h : Segment xs b l) {k : ℕ} (hk : k < l.length) : xs[b + k]? = some l[k] :=
  h k _ (List.getElem?_eq_getElem hk)

/-- Reading a table that was stored row by row. -/
theorem getElem?_flatMap_map (f : α → β → γ) (zs : List α) (ys : List β) {i k : ℕ}
    (hi : i < zs.length) (hk : k < ys.length) :
    (zs.flatMap fun z => ys.map (f z))[i * ys.length + k]? = some (f zs[i] ys[k]) := by
  induction zs generalizing i with
  | nil => exact absurd hi (Nat.not_lt_zero i)
  | cons z zs ih =>
    rw [List.flatMap_cons]
    cases i with
    | zero =>
      rw [Nat.zero_mul, Nat.zero_add, List.getElem?_append_left (by simpa using hk),
        List.getElem?_map, List.getElem?_eq_getElem hk]
      rfl
    | succ i =>
      have hle : (ys.map (f z)).length ≤ (i + 1) * ys.length + k := by
        rw [List.length_map, Nat.succ_mul]
        omega
      rw [List.getElem?_append_right hle, List.length_map, Nat.succ_mul,
        show i * ys.length + ys.length + k - ys.length = i * ys.length + k by omega,
        ih (Nat.lt_of_succ_lt_succ hi)]
      rfl

theorem two_le_length {a a' : α} (ha : a ∈ l) (ha' : a' ∈ l) (h : a ≠ a') : 2 ≤ l.length := by
  match l, ha, ha' with
  | [c], ha, ha' =>
    exact absurd ((List.mem_singleton.mp ha).trans (List.mem_singleton.mp ha').symm) h
  | _ :: _ :: _, _, _ => simp

theorem length_le (h : Segment xs b l) (hl : l ≠ []) : b + l.length ≤ xs.length := by
  have hpos := List.length_pos_iff.mpr hl
  have := (List.getElem?_eq_some_iff.mp (h.getElem? (Nat.sub_lt hpos one_pos))).1
  omega

theorem length_le_length_flatten {rows : List (List α)} (h : ∀ row ∈ rows, row ≠ []) :
    rows.length ≤ rows.flatten.length := by
  rw [List.length_flatten]
  have := List.card_nsmul_le_sum (rows.map List.length) 1 fun n hn => by
    obtain ⟨row, hrow, rfl⟩ := List.mem_map.mp hn
    exact List.length_pos_iff.mpr (h row hrow)
  simpa using this

/-- Numbers in order with none left out between them are consecutive. -/
theorem isChain_succ_of_convex {l : List ℕ} (hs : l.Pairwise (· < ·))
    (hc : ∀ a ∈ l, ∀ b ∈ l, ∀ k, a < k → k < b → k ∈ l) : l.IsChain fun a b => b = a + 1 := by
  refine List.isChain_iff_getElem.mpr fun i hi => ?_
  have hlt := List.pairwise_iff_getElem.mp hs i (i + 1) (Nat.lt_of_succ_lt hi) hi (Nat.lt_succ_self i)
  by_contra hne
  obtain ⟨j, hj, heq⟩ := List.mem_iff_getElem.mp
    (hc _ (List.getElem_mem (Nat.lt_of_succ_lt hi)) _ (List.getElem_mem hi) (l[i] + 1) (Nat.lt_succ_self _)
      (by omega))
  -- the number between them has no place in the list
  rcases Nat.lt_trichotomy j i with h | rfl | h
  · have := List.pairwise_iff_getElem.mp hs j i hj (Nat.lt_of_succ_lt hi) h
    omega
  · omega
  · rcases Nat.eq_or_lt_of_le (Nat.succ_le_of_lt h) with rfl | h'
    · exact hne heq
    · have := List.pairwise_iff_getElem.mp hs (i + 1) j hi hj h'
      omega

/-- Every one of two or more elements has a neighbour. -/
theorem forall_mem_of_isChain {r : α → α → Prop} {p : α → Prop} {l : List α} (hl : 2 ≤ l.length)
    (h : l.IsChain r) (hr : ∀ a b, r a b → p a ∧ p b) : ∀ a ∈ l, p a := by
  intro a ha
  obtain ⟨i, hi, rfl⟩ := List.mem_iff_getElem.mp ha
  cases i with
  | zero => exact (hr _ _ (List.isChain_iff_getElem.mp h 0 hl)).1
  | succ i => exact (hr _ _ (List.isChain_iff_getElem.mp h i hi)).2

/-- A list that is related to the elements of several segments consists of segments related to them. -/
theorem exists_segments_of_forall₂ {R : α → β → Prop} {rows : List (List α)} {l : List β}
    (h : List.Forall₂ R rows.flatten l) :
    ∃ rows', rows'.flatten = l ∧ List.Forall₂ (List.Forall₂ R) rows rows' := by
  induction rows generalizing l with
  | nil =>
    cases h
    exact ⟨[], rfl, .nil⟩
  | cons row rows ih =>
    obtain ⟨rows', hflat, hrows⟩ := ih (by simpa using List.forall₂_drop row.length h)
    refine ⟨l.take row.length :: rows', ?_, .cons ?_ hrows⟩
    · rw [List.flatten_cons, hflat, List.take_append_drop]
    · simpa using List.forall₂_take row.length h

/-! ## Adjacent segments -/

/-- The steps from first to last in each of two adjacent segments, over all pairs. -/
def steps (rows : List (List α)) : List ℕ :=
  List.zipWith (fun row row' => row.length + row'.length - 2) rows rows.tail

theorem steps_map (f : α → β) (rows : List (List α)) :
    steps (rows.map (List.map f)) = steps rows := by
  rw [steps, ← List.map_tail, List.zipWith_map]
  simp only [List.length_map]
  rfl

theorem length_steps (rows : List (List α)) : (steps rows).length = rows.length - 1 := by
  rw [steps, List.length_zipWith, List.length_tail]
  omega

theorem getElem?_steps {rows : List (List α)} {i : ℕ} (hi : i + 1 < rows.length) :
    (steps rows)[i]? = some (rows[i].length + rows[i + 1].length - 2) := by
  rw [steps, List.getElem?_zipWith, List.getElem?_tail, List.getElem?_eq_getElem hi,
    List.getElem?_eq_getElem (Nat.lt_of_succ_lt hi)]

theorem sum_zipWith_le (rows rows' : List (List α)) :
    (List.zipWith (fun row row' => row.length + row'.length - 2) rows rows').sum ≤
      rows.flatten.length + rows'.flatten.length := by
  induction rows generalizing rows' with
  | nil => exact Nat.zero_le _
  | cons row rows ih =>
    cases rows' with
    | nil => exact Nat.zero_le _
    | cons row' rows' =>
      have := ih rows'
      simp only [List.zipWith_cons_cons, List.sum_cons, List.flatten_cons, List.length_append]
      omega

theorem sum_steps_le (rows : List (List α)) : (steps rows).sum ≤ 2 * rows.flatten.length := by
  have htail : rows.tail.flatten.length ≤ rows.flatten.length := by
    cases rows with
    | nil => exact Nat.le_refl _
    | cons row rows =>
      rw [List.tail_cons, List.flatten_cons, List.length_append]
      exact Nat.le_add_left _ _
  have := sum_zipWith_le rows rows.tail
  rw [steps]
  omega

theorem one_le_sum_steps {rows : List (List α)} (hne : ∀ row ∈ rows, row ≠ [])
    (hlen : 2 ≤ rows.length) {row : List α} (hmem : row ∈ rows) (hrow : 2 ≤ row.length) :
    1 ≤ (steps rows).sum := by
  obtain ⟨i, hi, rfl⟩ := List.mem_iff_getElem.mp hmem
  have hpos : ∀ j (hj : j < rows.length), 1 ≤ rows[j].length := fun j hj =>
    List.length_pos_iff.mpr (hne _ (List.getElem_mem hj))
  -- the pair that the segment begins, or the one that it ends
  obtain ⟨j, n, hj, hn⟩ : ∃ j n, (steps rows)[j]? = some n ∧ 1 ≤ n := by
    by_cases hnext : i + 1 < rows.length
    · exact ⟨i, _, getElem?_steps hnext, by have := hpos _ hnext; omega⟩
    · obtain ⟨j, rfl⟩ : ∃ j, i = j + 1 := ⟨i - 1, by omega⟩
      exact ⟨j, _, getElem?_steps hi, by have := hpos j (by omega); omega⟩
  exact Nat.le_trans hn (List.le_sum_of_mem (List.mem_of_getElem? hj))

end Segment
