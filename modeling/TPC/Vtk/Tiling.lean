import TPC.Lib.Sweep
import TPC.Vtk.Strip

/-!
# The triangulation is a tiling

Each triangle of a walk is what is swept from one cross edge to the next. In exact arithmetic, for two
ordered rows:

* `step_hasSide_lower`, `step_hasSide_upper`, `step_hasSide_cross`: the sides of a triangle;
* `step_region`, `walked_disjoint`, `walked_covers`, `walked_area`: what the triangles cover;
* `Tiled`, **`Ordered.tiled`**: the triangles tile the strip;
* `OrderedRows`, **`triangulate_tiles`**: every strip of an ordered layer is tiled.
-/

namespace TPC.Vtk

open Fold Segment Sweep Triangle
open Arith hiding max

variable {points : List (CartesianPoint ℝ)}

namespace Ordered

variable {lower upper : Row} (h : Ordered points lower upper) {path : ℕ → ℕ × ℕ}
  (hs : Staircase (firstEdge lower upper) (lastEdge lower upper) path)

include h hs

/-! ## The triangles of a walk -/

theorem step_within {k : ℕ} (hk : k < stepCount lower upper) :
    ∀ c ∈ (stepTriangle (path k) (path (k + 1))).corners, lower.Has c ∨ upper.Has c := by
  obtain ⟨i, j, -, hi, hj, ⟨hi', -, ht⟩ | ⟨hj', -, ht⟩⟩ := h.step_cases hs hk
  · rw [ht]
    simp only [corners, List.forall_mem_cons]
    exact ⟨.inl hi, .inl hi', .inr hj, nofun⟩
  · rw [ht]
    simp only [corners, List.forall_mem_cons]
    exact ⟨.inl hi, .inr hj', .inr hj, nofun⟩

theorem step_signedArea {k : ℕ} (hk : k < stepCount lower upper) :
    (stepTriangle (path k) (path (k + 1))).signedArea points =
      ((vertex points (path (k + 1)).1).x + (vertex points (path (k + 1)).2).x -
        ((vertex points (path k).1).x + (vertex points (path k).2).x)) *
        ((vertex points upper.begin).y - (vertex points lower.begin).y) := by
  obtain ⟨i, j, he, hi, hj, ⟨hi', he', ht⟩ | ⟨hj', he', ht⟩⟩ := h.step_cases hs hk
  · rw [ht, he, he', h.signedArea_lower hi hi' hj]
    ring
  · rw [ht, he, he', h.signedArea_upper hi hj hj']
    ring

theorem step_positive {k : ℕ} (hk : k < stepCount lower upper) :
    0 < (stepTriangle (path k) (path (k + 1))).signedArea points := by
  obtain ⟨i, j, -, hi, hj, ⟨hi', -, ht⟩ | ⟨hj', -, ht⟩⟩ := h.step_cases hs hk
  · rw [ht]
    exact h.signedArea_lower_pos hi hi' hj
  · rw [ht]
    exact h.signedArea_upper_pos hi hj hj'

/-- The step that goes along an edge of the lower row is the one whose triangle has it as a side. -/
theorem step_hasSide_lower {k q : ℕ} (hk : k < stepCount lower upper)
    (hq : lower.Has (q + 1)) : (stepTriangle (path k) (path (k + 1))).HasSide q (q + 1) ↔
      (path k).1 = q ∧ (path (k + 1)).1 = q + 1 := by
  have hmeet := h.meet
  obtain ⟨i, j, he, hi, hj, ⟨hi', he', ht⟩ | ⟨hj', he', ht⟩⟩ := h.step_cases hs hk
  · rw [ht, he, he']
    unfold Row.Has at hq hi hj
    simp only [HasSide, corners, List.mem_cons, List.not_mem_nil, or_false]
    omega
  · rw [ht, he, he']
    unfold Row.Has at hq hi hj
    simp only [HasSide, corners, List.mem_cons, List.not_mem_nil, or_false]
    omega

theorem step_hasSide_upper {k q : ℕ} (hk : k < stepCount lower upper)
    (hq : upper.Has q) : (stepTriangle (path k) (path (k + 1))).HasSide q (q + 1) ↔
      (path k).2 = q ∧ (path (k + 1)).2 = q + 1 := by
  have hmeet := h.meet
  obtain ⟨i, j, he, hi, hj, ⟨hi', he', ht⟩ | ⟨hj', he', ht⟩⟩ := h.step_cases hs hk
  · rw [ht, he, he']
    unfold Row.Has at hq hi hi' hj
    simp only [HasSide, corners, List.mem_cons, List.not_mem_nil, or_false]
    omega
  · rw [ht, he, he']
    unfold Row.Has at hq hi hj
    simp only [HasSide, corners, List.mem_cons, List.not_mem_nil, or_false]
    omega

/-- The two other sides are the cross edges before and after the step. -/
theorem step_hasSide_cross {k : ℕ} (hk : k < stepCount lower upper)
    {e : ℕ × ℕ} (he₁ : lower.Has e.1) (he₂ : upper.Has e.2) :
    (stepTriangle (path k) (path (k + 1))).HasSide e.1 e.2 ↔ e = path k ∨ e = path (k + 1) := by
  have hmeet := h.meet
  obtain ⟨i, j, he, hi, hj, ⟨hi', he', ht⟩ | ⟨hj', he', ht⟩⟩ := h.step_cases hs hk
  · rw [ht, he, he']
    unfold Row.Has at he₁ he₂ hi hi' hj
    simp only [HasSide, corners, List.mem_cons, List.not_mem_nil, or_false, Prod.ext_iff]
    omega
  · rw [ht, he, he']
    unfold Row.Has at he₁ he₂ hi hj hj'
    simp only [HasSide, corners, List.mem_cons, List.not_mem_nil, or_false, Prod.ext_iff]
    omega

/-! ## What is swept -/

omit h hs in
/-- The abscissas of a cross edge. -/
noncomputable def abscissas (points : List (CartesianPoint ℝ)) (e : ℕ × ℕ) : ℝ × ℝ :=
  ((vertex points e.1).x, (vertex points e.2).x)

omit hs in
theorem ends_abscissas {e : ℕ × ℕ} (he₁ : lower.Has e.1) (he₂ : upper.Has e.2) :
    ends (vertex points lower.begin).y (vertex points upper.begin).y (abscissas points e) =
      {position points e.1, position points e.2} := by
  rw [ends, position, position, h.lower_level _ he₁, h.upper_level _ he₂]
  rfl

/-- A triangle covers what its step sweeps. -/
theorem step_region {k : ℕ} (hk : k < stepCount lower upper) :
    (stepTriangle (path k) (path (k + 1))).region points =
      between (vertex points lower.begin).y (vertex points upper.begin).y (abscissas points (path k))
        (abscissas points (path (k + 1))) := by
  have hcross := h.crosses hs hk.le
  have hcross' := h.crosses hs hk
  rw [between, h.ends_abscissas hcross.1 hcross.2, h.ends_abscissas hcross'.1 hcross'.2, Triangle.region]
  obtain ⟨i, j, he, -, -, ⟨-, he', ht⟩ | ⟨-, he', ht⟩⟩ := h.step_cases hs hk
  · rw [ht, he, he']
    congr 1
    ext p
    simp only [Set.mem_insert_iff, Set.mem_singleton_iff, Set.mem_union]
    tauto
  · rw [ht, he, he']
    congr 1
    ext p
    simp only [Set.mem_insert_iff, Set.mem_singleton_iff, Set.mem_union]
    tauto

theorem abscissas_monotoneOn : MonotoneOn (fun k => abscissas points (path k))
    (Set.Iic (stepCount lower upper)) := by
  refine monotoneOn_of_le_add_one Set.ordConnected_Iic fun k _ _ hk => ?_
  obtain ⟨i, j, he, hi, hj, ⟨hi', he', -⟩ | ⟨hj', he', -⟩⟩ := h.step_cases hs hk
  · rw [he, he']
    exact ⟨(h.lower_increasing i hi hi').le, le_rfl⟩
  · rw [he, he']
    exact ⟨le_rfl, (h.upper_increasing j hj hj').le⟩

/-- **The triangles of a walk do not overlap.** -/
theorem walked_disjoint : (walked path (stepCount lower upper)).Pairwise
    fun t t' => Disjoint (interior (t.region points)) (interior (t'.region points)) := by
  have hmono := h.abscissas_monotoneOn hs
  rw [walked, List.pairwise_map]
  refine List.pairwise_iff_getElem.mpr fun k l hk hl hkl => ?_
  rw [List.length_range] at hk hl
  rw [List.getElem_range, List.getElem_range, h.step_region hs hk, h.step_region hs hl]
  exact disjoint_between h.upward (hmono hk.le hk (Nat.le_succ k)) (hmono hk hl.le hkl)
    (hmono hl.le hl (Nat.le_succ l))

/-- **They leave no hole.** -/
theorem walked_covers (hpos : 0 < stepCount lower upper) :
    ⋃ t ∈ walked path (stepCount lower upper), t.region points =
      convexHull ℝ {position points lower.begin, position points (lower.stop - 1),
        position points upper.begin, position points (upper.stop - 1)} := by
  have hunion : ⋃ t ∈ walked path (stepCount lower upper), t.region points =
      ⋃ k < stepCount lower upper,
        between (vertex points lower.begin).y (vertex points upper.begin).y (abscissas points (path k))
          (abscissas points (path (k + 1))) := by
    ext p
    simp only [Set.mem_iUnion, walked, List.mem_map, List.mem_range]
    constructor
    · rintro ⟨t, ⟨k, hk, rfl⟩, hp⟩
      exact ⟨k, hk, by rwa [← h.step_region hs hk]⟩
    · rintro ⟨k, hk, hp⟩
      exact ⟨_, ⟨k, hk, rfl⟩, by rwa [h.step_region hs hk]⟩
  have hfirst := h.crosses hs (Nat.zero_le _)
  have hlast := h.crosses hs le_rfl
  rw [hunion, iUnion_between h.upward (h.abscissas_monotoneOn hs) hpos,
    between, h.ends_abscissas hfirst.1 hfirst.2, h.ends_abscissas hlast.1 hlast.2, hs.start, hs.stop]
  congr 1
  ext p
  simp only [Set.mem_insert_iff, Set.mem_singleton_iff, Set.mem_union, firstEdge, lastEdge]
  tauto

/-- **Their areas add up.** -/
theorem walked_area :
    ((walked path (stepCount lower upper)).map fun t => t.signedArea points / 2).sum =
      ((vertex points (lower.stop - 1)).x - (vertex points lower.begin).x +
        ((vertex points (upper.stop - 1)).x - (vertex points upper.begin).x)) / 2 *
        ((vertex points upper.begin).y - (vertex points lower.begin).y) := by
  -- what has been swept before a cross edge, up to a constant
  let swept : ℕ → ℝ := fun k => ((vertex points (path k).1).x + (vertex points (path k).2).x) / 2 *
    ((vertex points upper.begin).y - (vertex points lower.begin).y)
  have hstep : ∀ k ∈ List.range (stepCount lower upper),
      (stepTriangle (path k) (path (k + 1))).signedArea points / 2 = swept (k + 1) - swept k := by
    intro k hk
    rw [h.step_signedArea hs (List.mem_range.mp hk)]
    ring
  rw [walked, List.map_map]
  refine (congrArg List.sum (List.map_congr_left hstep)).trans ?_
  rw [sum_differences]
  dsimp only [swept]
  rw [hs.start, hs.stop, firstEdge, lastEdge]
  ring

end Ordered

/-! ## The tiling -/

/-- The triangles `ts` tile the strip between two rows. -/
structure Tiled (points : List (CartesianPoint ℝ)) (lower upper : Row) (ts : List Triangle) : Prop where
  /-- One step for every edge of the two rows: with fewer iterations the walk is not at its end. -/
  steps : ∀ fuel ts₀, stripWalk points lower upper fuel lower.begin upper.begin ts₀ =
    if lower.stop - lower.begin - 1 + (upper.stop - upper.begin - 1) ≤ fuel then .ok (ts₀ ++ ts)
    else .error (.exception .nonTermination)
  /-- Nothing but the two rows is read. -/
  confined : ∀ points' : List (CartesianPoint ℝ), (∀ k, lower.Has k ∨ upper.Has k → points'[k]? = points[k]?) →
    ∀ fuel ts₀, stripWalk points' lower upper fuel lower.begin upper.begin ts₀ =
      stripWalk points lower upper fuel lower.begin upper.begin ts₀
  length : ts.length = lower.stop - lower.begin - 1 + (upper.stop - upper.begin - 1)
  within : ∀ t ∈ ts, ∀ c ∈ t.corners, lower.Has c ∨ upper.Has c
  positive : ∀ t ∈ ts, 0 < t.signedArea points
  lower_edges : ∀ q, lower.Has q → lower.Has (q + 1) → ts.countP (fun t => t.HasSide q (q + 1)) = 1
  upper_edges : ∀ q, upper.Has q → upper.Has (q + 1) → ts.countP (fun t => t.HasSide q (q + 1)) = 1
  /-- Consecutive triangles have one cross edge in common. -/
  shared : ∀ k t t', ts[k]? = some t → ts[k + 1]? = some t' →
    ∃! e : ℕ × ℕ, lower.Has e.1 ∧ upper.Has e.2 ∧ t.HasSide e.1 e.2 ∧ t'.HasSide e.1 e.2
  disjoint : ts.Pairwise fun t t' => Disjoint (interior (t.region points)) (interior (t'.region points))
  /-- The area of the trapezoid of the end points. -/
  area : (ts.map fun t => t.signedArea points / 2).sum =
    ((vertex points (lower.stop - 1)).x - (vertex points lower.begin).x +
      ((vertex points (upper.stop - 1)).x - (vertex points upper.begin).x)) / 2 *
      ((vertex points upper.begin).y - (vertex points lower.begin).y)
  covered : ts ≠ [] → ⋃ t ∈ ts, t.region points =
    convexHull ℝ {position points lower.begin, position points (lower.stop - 1),
      position points upper.begin, position points (upper.stop - 1)}

/-- No triangle is flat: the edges of the rows are long enough for the gap between the rows. -/
structure Wide (points : List (CartesianPoint ℝ)) (lower upper : Row) : Prop where
  lower_wide : ∀ k, lower.Has k → lower.Has (k + 1) → 64 * epsilon < ((vertex points (k + 1)).x - (vertex points k).x) *
    ((vertex points upper.begin).y - (vertex points lower.begin).y)
  upper_wide : ∀ k, upper.Has k → upper.Has (k + 1) → 64 * epsilon < ((vertex points (k + 1)).x - (vertex points k).x) *
    ((vertex points upper.begin).y - (vertex points lower.begin).y)

namespace Ordered

variable {lower upper : Row} (h : Ordered points lower upper) {path : ℕ → ℕ × ℕ}
  (hs : Staircase (firstEdge lower upper) (lastEdge lower upper) path)

include h hs

theorem kept_walked (hwide : Wide points lower upper) :
    kept points (walked path (stepCount lower upper)) =
      walked path (stepCount lower upper) := by
  refine List.filter_eq_self.mpr fun t ht => decide_eq_true ?_
  obtain ⟨k, hk, rfl⟩ := List.mem_map.mp ht
  have hk' := List.mem_range.mp hk
  refine not_approximatelyEqual_zero (s := (stepTriangle (path k) (path (k + 1))).signedArea points) ?_
    (le_abs_self _)
  obtain ⟨i, j, -, hi, hj, ⟨hi', -, ht⟩ | ⟨hj', -, ht⟩⟩ := h.step_cases hs hk'
  · rw [ht, h.signedArea_lower hi hi' hj]
    exact hwide.lower_wide i hi hi'
  · rw [ht, h.signedArea_upper hi hj hj']
    exact hwide.upper_wide j hj hj'

/-- Consecutive triangles have the cross edge between their steps in common, and no other. -/
theorem walked_shared {k : ℕ} (hk : k + 1 < stepCount lower upper) :
    ∃! e : ℕ × ℕ, lower.Has e.1 ∧ upper.Has e.2 ∧ (stepTriangle (path k) (path (k + 1))).HasSide e.1 e.2 ∧
      (stepTriangle (path (k + 1)) (path (k + 2))).HasSide e.1 e.2 := by
  have hk' := Nat.lt_of_succ_lt hk
  have hcross := h.crosses hs hk.le
  refine ⟨path (k + 1), ⟨hcross.1, hcross.2, ?_, ?_⟩, fun e ⟨he₁, he₂, he, he'⟩ => ?_⟩
  · exact (h.step_hasSide_cross hs hk' hcross.1 hcross.2).mpr (.inr rfl)
  · exact (h.step_hasSide_cross hs hk hcross.1 hcross.2).mpr (.inl rfl)
  · rcases (h.step_hasSide_cross hs hk' he₁ he₂).mp he with rfl | rfl
    · -- the cross edges before and after two steps differ
      have hsum := hs.fst_add_snd hk'.le
      rcases (h.step_hasSide_cross hs hk he₁ he₂).mp he' with h' | h'
      · exact h'
      · have hsum' := hs.fst_add_snd (show k + 1 + 1 ≤ _ from hk)
        rw [← h', hsum] at hsum'
        omega
    · rfl

theorem tiled_walked (hw : Walks points lower upper (firstEdge lower upper) path) (hwide : Wide points lower upper) :
    Tiled points lower upper (walked path (stepCount lower upper)) := by
  have hlen : stepCount lower upper =
      lower.stop - lower.begin - 1 + (upper.stop - upper.begin - 1) := by
    simp only [stairs, firstEdge, lastEdge]
    omega
  have hstep : ∀ {P : Triangle → Prop}, (∀ k < stepCount lower upper,
      P (stepTriangle (path k) (path (k + 1)))) →
      ∀ t ∈ walked path (stepCount lower upper), P t := by
    intro P hP t ht
    obtain ⟨k, hk, rfl⟩ := List.mem_map.mp ht
    exact hP k (List.mem_range.mp hk)
  constructor
  case steps =>
    intro fuel ts₀
    rw [← hlen, ← h.kept_walked hs hwide]
    exact hw.2 fuel ts₀
  case confined =>
    exact fun points' hp fuel ts₀ =>
      stripWalk_congr hp fuel ⟨le_rfl, h.lower_pos⟩ ⟨le_rfl, h.upper_pos⟩ ts₀
  case length => rw [walked, List.length_map, List.length_range, hlen]
  case within => exact hstep fun k hk => h.step_within hs hk
  case positive => exact hstep fun k hk => h.step_positive hs hk
  case lower_edges =>
    intro q hq hq'
    have hlt := hq'.2
    rw [walked, List.countP_map]
    refine (List.countP_congr fun k hk => ?_).trans (hs.countP_fst hq.1 (show q < lower.stop - 1 by omega))
    simp only [Function.comp_apply, decide_eq_true_eq]
    exact h.step_hasSide_lower hs (List.mem_range.mp hk) hq'
  case upper_edges =>
    intro q hq hq'
    have hlt := hq'.2
    rw [walked, List.countP_map]
    refine (List.countP_congr fun k hk => ?_).trans (hs.countP_snd hq.1 (show q < upper.stop - 1 by omega))
    simp only [Function.comp_apply, decide_eq_true_eq]
    exact h.step_hasSide_upper hs (List.mem_range.mp hk) hq
  case shared =>
    intro k t t' ht ht'
    obtain ⟨-, rfl⟩ := eq_of_walked ht
    obtain ⟨hk', rfl⟩ := eq_of_walked ht'
    exact h.walked_shared hs hk'
  case disjoint => exact h.walked_disjoint hs
  case area => exact h.walked_area hs
  case covered =>
    intro hne
    refine h.walked_covers hs (Nat.pos_of_ne_zero fun h₀ => hne ?_)
    rw [h₀]
    rfl

omit hs in
/-- **The strip between two ordered rows is tiled.** -/
theorem tiled (hwide : Wide points lower upper) : ∃ ts, Tiled points lower upper ts := by
  obtain ⟨path, hw⟩ := h.exists_walk
  exact ⟨_, h.tiled_walked hw.1 hw hwide⟩

end Ordered

/-! ## The layer -/

/-- Rows from bottom to top, each level and from left to right, with a gap that is more than rounding and
edges that are long enough for it. -/
structure OrderedRows (rows : List (List (CartesianPoint ℝ))) : Prop where
  nonempty : ∀ row ∈ rows, row ≠ []
  level : ∀ row ∈ rows, ∀ p ∈ row, ∀ q ∈ row, p.y = q.y
  increasing : ∀ row ∈ rows, row.IsChain fun p q => p.x < q.x
  upward : rows.IsChain fun lower upper => ∀ p ∈ lower, ∀ q ∈ upper, p.y < q.y ∧ ¬ approximatelyEqual q.y p.y
  wide : rows.IsChain fun lower upper => ∀ row ∈ [lower, upper], row.IsChain fun a b =>
    ∀ p ∈ lower, ∀ q ∈ upper, 64 * epsilon < (b.x - a.x) * (q.y - p.y)

theorem OrderedRows.tail {row : List (CartesianPoint ℝ)} {rows : List (List (CartesianPoint ℝ))}
    (h : OrderedRows (row :: rows)) : OrderedRows rows where
  nonempty r hr := h.nonempty r (List.mem_cons_of_mem _ hr)
  level r hr := h.level r (List.mem_cons_of_mem _ hr)
  increasing r hr := h.increasing r (List.mem_cons_of_mem _ hr)
  upward := h.upward.tail
  wide := h.wide.tail

theorem OrderedRows.detected {rows : List (List (CartesianPoint ℝ))} (h : OrderedRows rows) : Detected rows := by
  induction rows with
  | nil => trivial
  | cons row rows ih =>
    refine ⟨fun front hfront => ⟨fun p hp => ?_, fun next hnext => ?_⟩, ih h.tail⟩
    · rw [h.level row List.mem_cons_self p (List.mem_of_mem_tail hp) front (List.mem_of_mem_head? hfront)]
      exact approximatelyEqual_self _
    · cases rows with
      | nil => exact absurd hnext (by simp)
      | cons row' rows =>
        have hne := h.nonempty row' (by simp)
        have hnext' : next ∈ row' := by
          rw [List.flatten_cons, List.head?_append_of_ne_nil _ hne] at hnext
          exact List.mem_of_mem_head? hnext
        have hup := (List.isChain_cons_cons.mp h.upward).1
        exact (hup front (List.mem_of_mem_head? hfront) next hnext').2

section Stored

variable {b b' : ℕ} {l u : List (CartesianPoint ℝ)}

theorem vertex_of_segment (hl : Segment points b l) {k : ℕ} (hk : Row.Has ⟨b, b + l.length⟩ k) :
    ∃ hk' : k - b < l.length, vertex points k = l[k - b] := by
  obtain ⟨h₁, h₂⟩ := hk
  dsimp only at h₁ h₂
  have hk' : k - b < l.length := by omega
  refine ⟨hk', vertex_of_getElem? ?_⟩
  have := hl.getElem? hk'
  rwa [Nat.add_sub_cancel' h₁] at this

theorem mem_of_segment (hl : Segment points b l) {k : ℕ} (hk : Row.Has ⟨b, b + l.length⟩ k) :
    vertex points k ∈ l := by
  obtain ⟨hk', he⟩ := vertex_of_segment hl hk
  rw [he]
  exact List.getElem_mem hk'

theorem isChain_of_segment {R : CartesianPoint ℝ → CartesianPoint ℝ → Prop} (hR : l.IsChain R)
    (hl : Segment points b l) {k : ℕ} (hk : Row.Has ⟨b, b + l.length⟩ k)
    (hk' : Row.Has ⟨b, b + l.length⟩ (k + 1)) : R (vertex points k) (vertex points (k + 1)) := by
  obtain ⟨hlt, he⟩ := vertex_of_segment hl hk
  obtain ⟨hlt', he'⟩ := vertex_of_segment hl hk'
  have hb : b ≤ k := hk.1
  have hsub : k + 1 - b = k - b + 1 := by omega
  rw [he, he']
  simp only [hsub] at hlt' ⊢
  exact List.isChain_iff_getElem.mp hR _ hlt'

theorem OrderedRows.ordered {rows : List (List (CartesianPoint ℝ))} (h : OrderedRows rows) {i : ℕ}
    (hl : rows[i]? = some l) (hu : rows[i + 1]? = some u) (hls : Segment points b l)
    (hus : Segment points (b + l.length) u) :
    Ordered points ⟨b, b + l.length⟩ ⟨b + l.length, b + l.length + u.length⟩ ∧
      Wide points ⟨b, b + l.length⟩ ⟨b + l.length, b + l.length + u.length⟩ := by
  have hlmem : l ∈ rows := List.mem_of_getElem? hl
  have humem : u ∈ rows := List.mem_of_getElem? hu
  have hlpos := List.length_pos_iff.mpr (h.nonempty _ hlmem)
  have hupos := List.length_pos_iff.mpr (h.nonempty _ humem)
  have hlfront : vertex points b ∈ l := mem_of_segment hls ⟨le_rfl, Nat.lt_add_of_pos_right hlpos⟩
  have hufront : vertex points (b + l.length) ∈ u := mem_of_segment hus ⟨le_rfl, Nat.lt_add_of_pos_right hupos⟩
  obtain ⟨hi, hrow⟩ := List.getElem?_eq_some_iff.mp hu
  have hrow' := (List.getElem?_eq_some_iff.mp hl).2
  have hup := List.isChain_iff_getElem.mp h.upward i hi
  have hwide := List.isChain_iff_getElem.mp h.wide i hi
  rw [hrow, hrow'] at hup hwide
  constructor
  · constructor
    case lower_pos => exact Nat.lt_add_of_pos_right hlpos
    case meet => exact le_rfl
    case upper_pos => exact Nat.lt_add_of_pos_right hupos
    case stored => exact hus.length_le (h.nonempty _ humem)
    case lower_level => exact fun k hk => h.level _ hlmem _ (mem_of_segment hls hk) _ hlfront
    case upper_level => exact fun k hk => h.level _ humem _ (mem_of_segment hus hk) _ hufront
    case lower_increasing => exact fun k hk hk' => isChain_of_segment (h.increasing _ hlmem) hls hk hk'
    case upper_increasing => exact fun k hk hk' => isChain_of_segment (h.increasing _ humem) hus hk hk'
    case upward => exact (hup _ hlfront _ hufront).1
  · constructor
    case lower_wide =>
      exact fun k hk hk' => isChain_of_segment (hwide l (by simp)) hls hk hk' _ hlfront _ hufront
    case upper_wide =>
      exact fun k hk hk' => isChain_of_segment (hwide u (by simp)) hus hk hk' _ hlfront _ hufront

end Stored

/-- The triangles of the strips, one strip after the other. -/
theorem exists_triangulate {rows : List Row} (P : (i : ℕ) → i + 1 < rows.length → List Triangle → Prop)
    (h : ∀ i hi, ∃ ts, P i hi ts ∧ ∀ ts₀, strip points rows ts₀ i = .ok (ts₀ ++ ts)) : ∃ g : ℕ → List Triangle,
      triangulate points rows = .ok ((List.range (rows.length - 1)).map g).flatten ∧ ∀ i hi, P i hi (g i) := by
  have hstrip : ∀ i, ∃ ts, ∀ hi, P i hi ts ∧ ∀ ts₀, strip points rows ts₀ i = .ok (ts₀ ++ ts) := by
    intro i
    by_cases hi : i + 1 < rows.length
    · obtain ⟨ts, hts⟩ := h i hi
      exact ⟨ts, fun _ => hts⟩
    · exact ⟨[], fun hi' => absurd hi' hi⟩
  choose g hg using hstrip
  refine ⟨g, ?_, fun i hi => (hg i hi).1⟩
  rw [triangulate, ← List.flatMap_def, foldlM_append_eq (g := g), List.nil_append]
  intro i hi ts
  have := List.mem_range.mp hi
  exact (hg i (by omega)).2 ts

theorem Tiled.strip_eq {rows : List Row} {i : ℕ} {lower upper : Row} {ts : List Triangle}
    (h : Tiled points lower upper ts) (hl : rows[i]? = some lower) (hu : rows[i + 1]? = some upper)
    (ts₀ : List Triangle) : strip points rows ts₀ i = .ok (ts₀ ++ ts) := by
  rw [strip, readAt_eq_ok.mpr hl, ok_bind, readAt_eq_ok.mpr hu, ok_bind, h.steps, if_pos (by omega)]

/-- The triangles `ts` tile the strip between the `i`-th row and the next one, where these are stored. -/
def TilesStrip (points : List (CartesianPoint ℝ)) (rows : List (List (CartesianPoint ℝ))) (i : ℕ)
    (ts : List Triangle) : Prop :=
  ∀ lower upper : List (CartesianPoint ℝ), rows[i]? = some lower → rows[i + 1]? = some upper → ∃ b,
    (ranges 0 rows)[i]? = some ⟨b, b + lower.length⟩ ∧
    (ranges 0 rows)[i + 1]? = some ⟨b + lower.length, b + lower.length + upper.length⟩ ∧
    Segment points b lower ∧ Segment points (b + lower.length) upper ∧
    Tiled points ⟨b, b + lower.length⟩ ⟨b + lower.length, b + lower.length + upper.length⟩ ts

namespace OrderedRows

variable {rows : List (List (CartesianPoint ℝ))} (h : OrderedRows rows) (hs : Segment points 0 rows.flatten)

include h hs

theorem detectRows_eq :
    detectRows points rows.flatten.length rows.flatten.length 0 = .ok (ranges 0 rows) := by
  have hlen : rows.flatten.length ≤ points.length := by
    by_cases hne : rows.flatten = []
    · rw [hne]
      exact Nat.zero_le _
    · have := hs.length_le hne
      omega
  exact (detectRows_eq_iff h.nonempty hs (Nat.zero_add _).symm hlen
    (length_le_length_flatten h.nonempty)).mpr h.detected

theorem exists_strips : ∃ g : ℕ → List Triangle,
    triangulate points (ranges 0 rows) = .ok ((List.range (rows.length - 1)).map g).flatten ∧
    ∀ i, i + 1 < rows.length → TilesStrip points rows i (g i) := by
  have hstrip : ∀ i, i + 1 < (ranges 0 rows).length → ∃ ts, TilesStrip points rows i ts ∧
      ∀ ts₀, strip points (ranges 0 rows) ts₀ i = .ok (ts₀ ++ ts) := by
    intro i hi
    rw [length_ranges] at hi
    have hl : rows[i]? = some rows[i] := List.getElem?_eq_getElem (Nat.lt_of_succ_lt hi)
    have hu : rows[i + 1]? = some rows[i + 1] := List.getElem?_eq_getElem hi
    obtain ⟨b, hb, hb', hls, hus⟩ := exists_ranges hs hl hu
    obtain ⟨hordered, hwide⟩ := h.ordered hl hu hls hus
    obtain ⟨ts, hts⟩ := hordered.tiled hwide
    refine ⟨ts, fun lower upper hl' hu' => ?_, hts.strip_eq hb hb'⟩
    cases hl.symm.trans hl'
    cases hu.symm.trans hu'
    exact ⟨b, hb, hb', hls, hus, hts⟩
  obtain ⟨g, hg, hstrips⟩ := exists_triangulate (fun i _ ts => TilesStrip points rows i ts) hstrip
  rw [length_ranges] at hg hstrips
  exact ⟨g, hg, hstrips⟩

theorem exists_triangles : ∃ ts, triangulate points (ranges 0 rows) = .ok ts ∧ ts.length = (steps rows).sum := by
  obtain ⟨g, hg, hstrips⟩ := h.exists_strips hs
  refine ⟨_, hg, ?_⟩
  rw [List.length_flatten, List.map_map]
  congr 1
  refine List.ext_getElem? fun i => ?_
  by_cases hi : i + 1 < rows.length
  · obtain ⟨b, -, -, -, -, ht⟩ := hstrips i hi _ _ (List.getElem?_eq_getElem (Nat.lt_of_succ_lt hi))
      (List.getElem?_eq_getElem hi)
    have hpos := List.length_pos_iff.mpr (h.nonempty _ (List.getElem_mem (Nat.lt_of_succ_lt hi)))
    have hpos' := List.length_pos_iff.mpr (h.nonempty _ (List.getElem_mem hi))
    rw [List.getElem?_map, List.getElem?_range (by omega), getElem?_steps hi, Option.map_some,
      Function.comp_apply, ht.length]
    dsimp only
    congr 1
    omega
  · rw [List.getElem?_eq_none (by simp; omega), List.getElem?_eq_none (by rw [length_steps]; omega)]

end OrderedRows

/-- **An ordered layer is tiled.** Its rows are found, and the triangulation is made of one list of
triangles for each pair of adjacent rows, which tiles the strip between them. -/
theorem triangulate_tiles {rows : List (List (CartesianPoint ℝ))} (h : OrderedRows rows)
    (hs : Segment points 0 rows.flatten) :
    detectRows points rows.flatten.length rows.flatten.length 0 = .ok (ranges 0 rows) ∧
      ∃ strips : List (List Triangle), triangulate points (ranges 0 rows) = .ok strips.flatten ∧
        strips.length = rows.length - 1 ∧
        ∀ (i : ℕ) (lower upper : List (CartesianPoint ℝ)), rows[i]? = some lower → rows[i + 1]? = some upper → ∃ b ts,
          (ranges 0 rows)[i]? = some ⟨b, b + lower.length⟩ ∧
          (ranges 0 rows)[i + 1]? = some ⟨b + lower.length, b + lower.length + upper.length⟩ ∧
          strips[i]? = some ts ∧
          Tiled points ⟨b, b + lower.length⟩ ⟨b + lower.length, b + lower.length + upper.length⟩ ts := by
  obtain ⟨g, hg, hstrips⟩ := h.exists_strips hs
  refine ⟨h.detectRows_eq hs, (List.range (rows.length - 1)).map g, hg, by simp, fun i lower upper hl hu => ?_⟩
  have hi := (List.getElem?_eq_some_iff.mp hu).1
  obtain ⟨b, hb, hb', -, -, ht⟩ := hstrips i hi lower upper hl hu
  refine ⟨b, g i, hb, hb', ?_, ht⟩
  rw [List.getElem?_map, List.getElem?_range (by omega)]
  rfl

/-- Three rows, of three, two and one points. -/
def gableRows : List (List (CartesianPoint ℝ)) :=
  [[⟨-1, -1, 0⟩, ⟨0, -1, 0⟩, ⟨1, -1, 0⟩], [⟨-1, 0, 0⟩, ⟨1, 0, 0⟩], [⟨0, 1, 0⟩]]

theorem orderedRows_gable : OrderedRows gableRows := by
  have he : 64 * (epsilon : ℝ) < 1 := by rw [epsilon_real]; norm_num
  have he₂ : 64 * (epsilon : ℝ) < 2 := he.trans one_lt_two
  have hne : ¬ approximatelyEqual (1 : ℝ) 0 := not_approximatelyEqual_zero he (by simp)
  have hne' : ¬ approximatelyEqual (0 : ℝ) (-1) := not_approximatelyEqual (R := 1) (s := 1) (by simp) (by simp)
    (by rwa [max_self, mul_one]) (by simp)
  constructor
  case nonempty => simp [gableRows]
  case level => simp [gableRows]
  case increasing => norm_num [gableRows]
  case upward => norm_num [gableRows, hne, hne']
  case wide => norm_num [gableRows, he, he₂]

/-- `triangulate_tiles` for these rows. -/
theorem triangulate_tiles_gable : ∃ ts ts', triangulate gableRows.flatten (ranges 0 gableRows) = .ok (ts ++ ts') ∧
    Tiled gableRows.flatten ⟨0, 3⟩ ⟨3, 5⟩ ts ∧ Tiled gableRows.flatten ⟨3, 5⟩ ⟨5, 6⟩ ts' := by
  obtain ⟨-, strips, hts, hlength, htiled⟩ := triangulate_tiles orderedRows_gable (segment_self _)
  obtain ⟨b, ts, hb, -, hstrip, h⟩ := htiled 0 _ _ rfl rfl
  obtain ⟨b', ts', hb', -, hstrip', h'⟩ := htiled 1 _ _ rfl rfl
  cases hb
  cases hb'
  obtain ⟨l, l', rfl⟩ := List.length_eq_two.mp hlength
  cases hstrip
  cases hstrip'
  exact ⟨ts, ts', by simpa using hts, h, h'⟩

end TPC.Vtk
