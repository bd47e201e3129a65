import TPC.Lib.Segment
import TPC.Vtk.Mesh

/-!
# When the rows of a layer are found

* `ranges`, `exists_ranges`: where rows are stored;
* `Detected`: each row looks level from its first point, and the next row does not look like it;
* **`detectRows_eq_iff`**: exactly then the detection returns these rows.
-/

namespace TPC.Vtk

open Fold Segment

/-! ## Ranges -/

/-- The index ranges of rows that are stored from `b` on. -/
def ranges {α : Type} : ℕ → List (List α) → List Row
  | _, [] => []
  | b, row :: rows => ⟨b, b + row.length⟩ :: ranges (b + row.length) rows

theorem ranges_map {α β : Type} (f : α → β) (b : ℕ) (rows : List (List α)) :
    ranges b (rows.map (List.map f)) = ranges b rows := by
  induction rows generalizing b with
  | nil => rfl
  | cons row rows ih => rw [List.map_cons, ranges, ranges, ih, List.length_map]

theorem length_ranges {α : Type} (b : ℕ) (rows : List (List α)) :
    (ranges b rows).length = rows.length := by
  induction rows generalizing b with
  | nil => rfl
  | cons row rows ih => rw [ranges, List.length_cons, List.length_cons, ih]

/-- Two adjacent rows, and where they are stored. -/
theorem exists_ranges {α : Type} {xs lower upper : List α} {rows : List (List α)} {b i : ℕ}
    (hs : Segment xs b rows.flatten) (hl : rows[i]? = some lower) (hu : rows[i + 1]? = some upper) :
    ∃ b', (ranges b rows)[i]? = some ⟨b', b' + lower.length⟩ ∧
      (ranges b rows)[i + 1]? = some ⟨b' + lower.length, b' + lower.length + upper.length⟩ ∧
      Segment xs b' lower ∧ Segment xs (b' + lower.length) upper := by
  induction rows generalizing b i with
  | nil => cases hl
  | cons row rows ih =>
    rw [List.flatten_cons, segment_append] at hs
    cases i with
    | zero =>
      cases rows with
      | nil => cases hu
      | cons row' rows =>
        cases hl
        cases hu
        rw [List.flatten_cons, segment_append] at hs
        exact ⟨b, rfl, rfl, hs.1, hs.2.1⟩
    | succ i => exact ih hs.2 hl hu

/-! ## Detection -/

variable {F : Type} [Arith F] {points : List (CartesianPoint F)}

/-- The points of a row have the height of its first one, up to rounding, and the first point of the
next row has not. -/
def Detected : List (List (CartesianPoint F)) → Prop
  | [] => True
  | row :: rows => (∀ front ∈ row.head?, (∀ p ∈ row.tail, approximatelyEqual p.y front.y) ∧
      ∀ next ∈ rows.flatten.head?, ¬ approximatelyEqual next.y front.y) ∧ Detected rows

theorem rowEnd_eq_iff {ppl i e : ℕ} {y : F} (hi : i ≤ e) (he : e ≤ ppl) (hppl : ppl ≤ points.length) :
    rowEnd points ppl y i = .ok e ↔
      (∀ k p, i ≤ k → k < e → points[k]? = some p → approximatelyEqual p.y y) ∧
      ∀ p, e < ppl → points[e]? = some p → ¬ approximatelyEqual p.y y := by
  obtain ⟨e', he', hie, hlen, hin, hout⟩ := rowEnd_spec (y := y) (hi.trans he) hppl
  rw [he']
  constructor
  · rintro h
    cases h
    refine ⟨fun k p hk hk' hp => ?_, fun p hlt hp => ?_⟩
    · obtain ⟨p', hp', hy⟩ := hin k hk hk'
      rw [hp] at hp'
      cases hp'
      exact hy
    · obtain ⟨p', hp', hy⟩ := hout hlt
      rw [hp] at hp'
      cases hp'
      exact hy
  · rintro ⟨hin', hout'⟩
    refine congrArg Except.ok ?_
    rcases lt_trichotomy e' e with hlt | heq | hgt
    · obtain ⟨p, hp, hy⟩ := hout (hlt.trans_le he)
      exact absurd (hin' e' p hie hlt hp) hy
    · exact heq
    · obtain ⟨p, hp, hy⟩ := hin e hi hgt
      exact absurd hy (hout' p (hgt.trans_le hlen) hp)

theorem detectRows_succ_eq_iff {ppl fuel b e : ℕ} {rows : List Row} {front : CartesianPoint F}
    (hb : b < ppl) (hfront : points[b]? = some front) :
    detectRows points ppl (fuel + 1) b = .ok (⟨b, e⟩ :: rows) ↔
      rowEnd points ppl front.y (b + 1) = .ok e ∧ detectRows points ppl fuel e = .ok rows := by
  rw [detectRows, if_pos hb, readAt_eq_ok.mpr hfront, ok_bind]
  constructor
  · intro h
    obtain ⟨e', he', h⟩ := bind_eq_ok.mp h
    obtain ⟨rows', hrows', h⟩ := bind_eq_ok.mp h
    cases h
    exact ⟨he', hrows'⟩
  · rintro ⟨he, hrows⟩
    rw [he, ok_bind, hrows]
    rfl

/-- **The rows that are stored are found** if and only if they look level and apart. -/
theorem detectRows_eq_iff {rows : List (List (CartesianPoint F))} {ppl fuel b : ℕ}
    (hne : ∀ row ∈ rows, row ≠ []) (hs : Segment points b rows.flatten)
    (hppl : ppl = b + rows.flatten.length) (hlen : ppl ≤ points.length) (hfuel : rows.length ≤ fuel) :
    detectRows points ppl fuel b = .ok (ranges b rows) ↔ Detected rows := by
  induction rows generalizing fuel b with
  | nil =>
    have hend : ¬ b < ppl := by simp [hppl]
    refine ⟨fun _ => trivial, fun _ => ?_⟩
    cases fuel with
    | zero =>
      rw [detectRows, if_neg hend]
      rfl
    | succ fuel =>
      rw [detectRows, if_neg hend]
      rfl
  | cons row rows ih =>
    obtain ⟨fuel, rfl⟩ : ∃ n, fuel = n + 1 := ⟨fuel - 1, by simp only [List.length_cons] at hfuel; omega⟩
    rw [List.flatten_cons, segment_append] at hs
    rw [List.flatten_cons, List.length_append] at hppl
    obtain ⟨front, rest, rfl⟩ := List.exists_cons_of_ne_nil (hne row List.mem_cons_self)
    have hfront : points[b]? = some front := hs.1 0 front rfl
    have hrest := ih (fun r hr => hne r (List.mem_cons_of_mem _ hr)) hs.2 (by omega)
      (Nat.le_of_succ_le_succ hfuel)
    rw [List.length_cons] at hppl hrest
    have hstop : rowEnd points ppl front.y (b + 1) = .ok (b + (rest.length + 1)) ↔
        (∀ p ∈ rest, approximatelyEqual p.y front.y) ∧
          ∀ next ∈ rows.flatten.head?, ¬ approximatelyEqual next.y front.y := by
      rw [rowEnd_eq_iff (by omega) (by omega) hlen]
      refine and_congr ⟨fun h p hp => ?_, fun h k p hk hk' hp => ?_⟩
        ⟨fun h next hnext => ?_, fun h p hlt hp => ?_⟩
      · obtain ⟨k, hk, rfl⟩ := List.mem_iff_getElem.mp hp
        exact h (b + (k + 1)) _ (by omega) (by omega)
          (hs.1 (k + 1) _ (by rw [List.getElem?_cons_succ, List.getElem?_eq_getElem hk]))
      · have hk'' : k - b - 1 < rest.length := by omega
        have hp' := hs.1 (k - b - 1 + 1) _
          (by rw [List.getElem?_cons_succ, List.getElem?_eq_getElem hk''])
        rw [show b + (k - b - 1 + 1) = k by omega, hp] at hp'
        cases hp'
        exact h _ (List.getElem_mem hk'')
      · have h₀ : rows.flatten[0]? = some next := by rwa [← List.head?_eq_getElem?]
        exact h next (by have := (List.getElem?_eq_some_iff.mp h₀).1; omega) (hs.2 0 next h₀)
      · have h₀ : 0 < rows.flatten.length := by omega
        have hp' := hs.2.getElem? h₀
        rw [Nat.add_zero, List.length_cons, hp] at hp'
        cases hp'
        exact h _ (by rw [List.head?_eq_getElem?, List.getElem?_eq_getElem h₀]; rfl)
    rw [ranges, List.length_cons, detectRows_succ_eq_iff (by omega) hfront, hstop, hrest]
    simp [Detected]

end TPC.Vtk
