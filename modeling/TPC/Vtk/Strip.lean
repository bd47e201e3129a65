import TPC.Lib.Staircase
import TPC.Vtk.Rows

/-!
# The strip between two rows

Two level rows, the second one higher, each from left to right: in exact arithmetic, the walk is a
staircase of cross edges.

* `approximatelyEqual_self`, `not_approximatelyEqual`: equality up to rounding, far from rounding;
* `vertex`; **`stripWalk_congr`**: the walk reads only the two rows;
* `Triangle.corners`, `Triangle.HasSide`, `Triangle.signedArea`, `Triangle.region`; `kept`;
* `Ordered`, `Walks`, **`Ordered.exists_walk`**: the steps of the walk, and the triangles that it enters;
* `Ordered.step_cases`: one step; `stepCount`.
-/

namespace TPC.Vtk

open Fold
open Arith hiding max

/-! ## Reading -/

section Reading

variable {F : Type} [Arith F] {points points' : List (CartesianPoint F)}

/-- A stored point. -/
def vertex (points : List (CartesianPoint F)) (k : ℕ) : CartesianPoint F := points.getD k ⟨0, 0, 0⟩

theorem vertex_of_getElem? {k : ℕ} {p : CartesianPoint F} (h : points[k]? = some p) : vertex points k = p := by
  rw [vertex, List.getD_eq_getElem?_getD, h]
  rfl

theorem readAt_vertex {k : ℕ} (h : k < points.length) : readAt points k = .ok (vertex points k) := by
  rw [readAt_of_lt h, vertex_of_getElem? (List.getElem?_eq_getElem h)]

/-- The points of a row. -/
def Row.Has (row : Row) (k : ℕ) : Prop := row.begin ≤ k ∧ k < row.stop

omit [Arith F] in
theorem readAt_congr {k : ℕ} (h : points'[k]? = points[k]?) : readAt points' k = readAt points k := by
  rw [readAt, readAt, h]

theorem addTriangle_congr {a b c : ℕ} (ha : points'[a]? = points[a]?) (hb : points'[b]? = points[b]?)
    (hc : points'[c]? = points[c]?) (ts : List Triangle) :
    addTriangle points' ts a b c = addTriangle points ts a b c := by
  rw [addTriangle, addTriangle, readAt_congr ha, readAt_congr hb, readAt_congr hc]

/-- **The walk reads only the points of its two rows.** -/
theorem stripWalk_congr {lower upper : Row}
    (h : ∀ k, lower.Has k ∨ upper.Has k → points'[k]? = points[k]?) (fuel : ℕ) {i j : ℕ} (hi : lower.Has i)
    (hj : upper.Has j) (ts : List Triangle) :
    stripWalk points' lower upper fuel i j ts = stripWalk points lower upper fuel i j ts := by
  induction fuel generalizing i j ts with
  | zero => rw [stripWalk, stripWalk]
  | succ fuel ih =>
    have hi₁ := h i (.inl hi)
    have hj₁ := h j (.inr hj)
    rw [stripWalk, stripWalk]
    -- a step along the lower row, and one along the upper row
    have hlower : i + 1 < lower.stop →
        (addTriangle points' ts i (i + 1) j >>= stripWalk points' lower upper fuel (i + 1) j) =
          (addTriangle points ts i (i + 1) j >>= stripWalk points lower upper fuel (i + 1) j) := by
      intro hlt
      have hi' : lower.Has (i + 1) := ⟨hi.1.trans (Nat.le_succ i), hlt⟩
      rw [addTriangle_congr hi₁ (h _ (.inl hi')) hj₁]
      exact congrArg _ (funext fun ts' => ih hi' hj ts')
    have hupper : j + 1 < upper.stop →
        (addTriangle points' ts i j (j + 1) >>= stripWalk points' lower upper fuel i (j + 1)) =
          (addTriangle points ts i j (j + 1) >>= stripWalk points lower upper fuel i (j + 1)) := by
      intro hlt
      have hj' : upper.Has (j + 1) := ⟨hj.1.trans (Nat.le_succ j), hlt⟩
      rw [addTriangle_congr hi₁ hj₁ (h _ (.inr hj'))]
      exact congrArg _ (funext fun ts' => ih hi hj' ts')
    have hi₂ := hi.2
    have hj₂ := hj.2
    split_ifs with hgo hlast hlast'
    · exact hlower (by omega)
    · exact hupper (by omega)
    · have hi' : lower.Has (i + 1) := ⟨hi.1.trans (Nat.le_succ i), by omega⟩
      have hj' : upper.Has (j + 1) := ⟨hj.1.trans (Nat.le_succ j), by omega⟩
      rw [readAt_congr (h _ (.inl hi')), readAt_congr (h _ (.inr hj'))]
      refine congrArg _ (funext fun pl => congrArg _ (funext fun pu => ?_))
      split_ifs
      · exact hlower hi'.2
      · exact hupper hj'.2
    · rfl

end Reading

/-! ## Equality up to rounding -/

theorem approximatelyEqual_iff (a b : ℝ) :
    approximatelyEqual a b ↔ |a - b| ≤ 64 * epsilon * max (max 1 |a|) |b| := by
  rw [approximatelyEqual, max_real, max_real, abs_real, abs_real, abs_real]
  norm_num

theorem approximatelyEqual_self (a : ℝ) : approximatelyEqual a a := by
  rw [approximatelyEqual_iff, sub_self, abs_zero]
  have := epsilon_pos
  positivity

/-- Values that are bounded and apart differ. -/
theorem not_approximatelyEqual {a b R s : ℝ} (ha : |a| ≤ R) (hb : |b| ≤ R)
    (hs : 64 * epsilon * max 1 R < s) (h : s ≤ |a - b|) : ¬ approximatelyEqual a b := by
  rw [approximatelyEqual_iff, not_le]
  have he := epsilon_pos
  have hmax : max (max 1 |a|) |b| ≤ max 1 R :=
    max_le (max_le (le_max_left _ _) (ha.trans (le_max_right _ _))) (hb.trans (le_max_right _ _))
  calc 64 * epsilon * max (max 1 |a|) |b| ≤ 64 * epsilon * max 1 R :=
        mul_le_mul_of_nonneg_left hmax (by positivity)
    _ < s := hs
    _ ≤ |a - b| := h

theorem not_approximatelyEqual_zero {a s : ℝ} (hs : 64 * epsilon < s) (h : s ≤ |a|) :
    ¬ approximatelyEqual a 0 := by
  rw [approximatelyEqual_iff, not_le, sub_zero, abs_zero]
  have he : 64 * (epsilon : ℝ) < 1 := by rw [epsilon_real]; norm_num
  have hpos := epsilon_pos
  rcases le_total |a| 1 with ha | ha
  · rw [max_eq_left ha, max_eq_left zero_le_one, mul_one]
    linarith
  · rw [max_eq_right ha, max_eq_left (abs_nonneg a)]
    nlinarith

/-! ## Triangles -/

namespace Triangle

def corners (t : Triangle) : List ℕ := [t.1, t.2.1, t.2.2]

/-- Two different corners are the ends of a side. -/
def HasSide (t : Triangle) (p q : ℕ) : Prop := p ≠ q ∧ p ∈ t.corners ∧ q ∈ t.corners

instance (t : Triangle) (p q : ℕ) : Decidable (t.HasSide p q) := inferInstanceAs (Decidable (_ ∧ _))

section Area

variable {F : Type} [Arith F]

/-- Twice the area, positive if the triangle is counterclockwise. -/
def signedArea (points : List (CartesianPoint F)) (t : Triangle) : F :=
  Vtk.signedArea (vertex points t.1) (vertex points t.2.1) (vertex points t.2.2)

/-- Not entered: its area is zero up to rounding. -/
def Flat (points : List (CartesianPoint F)) (t : Triangle) : Prop := approximatelyEqual (t.signedArea points) 0

instance (points : List (CartesianPoint F)) (t : Triangle) : Decidable (t.Flat points) :=
  inferInstanceAs (Decidable (approximatelyEqual _ _))

end Area

/-- A point in the plane of its layer. -/
noncomputable def position (points : List (CartesianPoint ℝ)) (k : ℕ) : ℝ × ℝ := ((vertex points k).x, (vertex points k).y)

/-- The area that a triangle covers. -/
def region (points : List (CartesianPoint ℝ)) (t : Triangle) : Set (ℝ × ℝ) :=
  convexHull ℝ {position points t.1, position points t.2.1, position points t.2.2}

end Triangle

open Triangle

variable {points : List (CartesianPoint ℝ)}

/-- The triangles that are entered. -/
noncomputable def kept (points : List (CartesianPoint ℝ)) (ts : List Triangle) : List Triangle :=
  ts.filter fun t => ¬ t.Flat points

theorem kept_cons (t : Triangle) (ts : List Triangle) : kept points (t :: ts) = kept points [t] ++ kept points ts := by
  rw [kept, ← List.singleton_append, List.filter_append]
  rfl

theorem kept_singleton (t : Triangle) : kept points [t] = if t.Flat points then [] else [t] := by
  by_cases h : t.Flat points
  · simp [kept, h]
  · simp [kept, h]

theorem signedArea_swap (a b c : CartesianPoint ℝ) : Vtk.signedArea a b c = -Vtk.signedArea a c b := by
  rw [Vtk.signedArea, Vtk.signedArea]
  ring

theorem approximatelyEqual_neg_zero (a : ℝ) : approximatelyEqual (-a) 0 ↔ approximatelyEqual a 0 := by
  rw [approximatelyEqual_iff, approximatelyEqual_iff, sub_zero, sub_zero, abs_neg]

/-- A counterclockwise triangle is entered as it is, unless it is flat. -/
theorem addTriangle_pos {a b c : ℕ} (ha : a < points.length) (hb : b < points.length) (hc : c < points.length)
    (h : 0 < Triangle.signedArea points (a, b, c)) (ts : List Triangle) :
    addTriangle points ts a b c = .ok (ts ++ kept points [(a, b, c)]) := by
  rw [addTriangle, readAt_vertex ha, ok_bind, readAt_vertex hb, ok_bind, readAt_vertex hc, ok_bind,
    kept_singleton]
  change (if Triangle.Flat points (a, b, c) then pure ts else
    if Triangle.signedArea points (a, b, c) < 0 then pure (ts ++ [(a, c, b)]) else pure (ts ++ [(a, b, c)])) = _
  by_cases hflat : Triangle.Flat points (a, b, c)
  · rw [if_pos hflat, if_pos hflat, List.append_nil]
    rfl
  · rw [if_neg hflat, if_neg hflat, if_neg (not_lt.mpr h.le)]
    rfl

/-- A clockwise triangle is turned. -/
theorem addTriangle_neg {a b c : ℕ} (ha : a < points.length) (hb : b < points.length) (hc : c < points.length)
    (h : 0 < Triangle.signedArea points (a, c, b)) (ts : List Triangle) :
    addTriangle points ts a b c = .ok (ts ++ kept points [(a, c, b)]) := by
  have hswap : Vtk.signedArea (vertex points a) (vertex points b) (vertex points c) =
      -Triangle.signedArea points (a, c, b) := signedArea_swap _ _ _
  have hiff : approximatelyEqual (-Triangle.signedArea points (a, c, b)) 0 ↔ Triangle.Flat points (a, c, b) :=
    approximatelyEqual_neg_zero _
  rw [addTriangle, readAt_vertex ha, ok_bind, readAt_vertex hb, ok_bind, readAt_vertex hc, ok_bind,
    kept_singleton]
  dsimp only
  rw [hswap]
  by_cases hflat : Triangle.Flat points (a, c, b)
  · rw [if_pos (hiff.mpr hflat), if_pos hflat, List.append_nil]
    rfl
  · rw [if_neg (mt hiff.mp hflat), if_neg hflat, if_pos (neg_lt_zero.mpr h)]
    rfl

/-! ## The walk -/

/-- Two level rows, the second one higher, each from left to right. -/
structure Ordered (points : List (CartesianPoint ℝ)) (lower upper : Row) : Prop where
  lower_pos : lower.begin < lower.stop
  meet : lower.stop ≤ upper.begin
  upper_pos : upper.begin < upper.stop
  stored : upper.stop ≤ points.length
  lower_level : ∀ k, lower.Has k → (vertex points k).y = (vertex points lower.begin).y
  upper_level : ∀ k, upper.Has k → (vertex points k).y = (vertex points upper.begin).y
  lower_increasing : ∀ k, lower.Has k → lower.Has (k + 1) → (vertex points k).x < (vertex points (k + 1)).x
  upper_increasing : ∀ k, upper.Has k → upper.Has (k + 1) → (vertex points k).x < (vertex points (k + 1)).x
  upward : (vertex points lower.begin).y < (vertex points upper.begin).y

/-- The triangle between two consecutive cross edges. -/
def stepTriangle (e e' : ℕ × ℕ) : Triangle := if e.1 < e'.1 then (e.1, e'.1, e.2) else (e.1, e'.2, e.2)

theorem stepTriangle_lower (i j : ℕ) : stepTriangle (i, j) (i + 1, j) = (i, i + 1, j) := if_pos (Nat.lt_succ_self i)

theorem stepTriangle_upper (i j : ℕ) : stepTriangle (i, j) (i, j + 1) = (i, j + 1, j) := if_neg (lt_irrefl i)

/-- The first cross edge of a strip, and the last one. -/
def firstEdge (lower upper : Row) : ℕ × ℕ := (lower.begin, upper.begin)

def lastEdge (lower upper : Row) : ℕ × ℕ := (lower.stop - 1, upper.stop - 1)

/-- The steps of the walk. -/
abbrev stepCount (lower upper : Row) : ℕ := stairs (firstEdge lower upper) (lastEdge lower upper)

/-- The triangles of the first `n` steps. -/
def walked (path : ℕ → ℕ × ℕ) (n : ℕ) : List Triangle :=
  (List.range n).map fun k => stepTriangle (path k) (path (k + 1))

theorem walked_cons (e : ℕ × ℕ) (path : ℕ → ℕ × ℕ) (n : ℕ) :
    walked (Staircase.cons e path) (n + 1) = stepTriangle e (path 0) :: walked path n := by
  rw [walked, List.range_succ_eq_map, List.map_cons, List.map_map]
  rfl

/-- What the walk does from a cross edge on: it takes exactly the steps of a staircase. -/
def Walks (points : List (CartesianPoint ℝ)) (lower upper : Row) (e : ℕ × ℕ) (path : ℕ → ℕ × ℕ) : Prop :=
  Staircase e (lastEdge lower upper) path ∧ ∀ fuel ts, Vtk.stripWalk points lower upper fuel e.1 e.2 ts =
    if stairs e (lastEdge lower upper) ≤ fuel then
      .ok (ts ++ kept points (walked path (stairs e (lastEdge lower upper))))
    else .error (.exception .nonTermination)

theorem Walks.cons {lower upper : Row} {e e' : ℕ × ℕ} {path : ℕ → ℕ × ℕ} (hw : Walks points lower upper e' path)
    (hstep : e' = (e.1 + 1, e.2) ∨ e' = (e.1, e.2 + 1))
    (hgo : e.1 + 1 < lower.stop ∨ e.2 + 1 < upper.stop)
    (hnext : ∀ fuel ts, stripWalk points lower upper (fuel + 1) e.1 e.2 ts =
      stripWalk points lower upper fuel e'.1 e'.2 (ts ++ kept points [stepTriangle e e'])) :
    Walks points lower upper e (Staircase.cons e path) := by
  refine ⟨hw.1.cons_of hstep, fun fuel ts => ?_⟩
  rw [hw.1.stairs_succ hstep]
  cases fuel with
  | zero =>
    rw [stripWalk, if_pos hgo, if_neg (Nat.not_succ_le_zero _)]
  | succ fuel =>
    rw [hnext, hw.2, walked_cons, hw.1.start,
      kept_cons (stepTriangle e e') (walked path _), List.append_assoc]
    simp only [Nat.succ_le_succ_iff]

theorem eq_of_walked {path : ℕ → ℕ × ℕ} {n k : ℕ} {t : Triangle} (ht : (walked path n)[k]? = some t) :
    k < n ∧ t = stepTriangle (path k) (path (k + 1)) := by
  have hk : k < n := by simpa [walked] using (List.getElem?_eq_some_iff.mp ht).1
  rw [walked, List.getElem?_map, List.getElem?_range hk] at ht
  cases ht
  exact ⟨hk, rfl⟩

namespace Ordered

variable {lower upper : Row} (h : Ordered points lower upper)

include h

theorem lower_lt {i : ℕ} (hi : lower.Has i) : i < points.length := by
  have := h.meet
  have := h.upper_pos
  have := h.stored
  have := hi.2
  omega

theorem upper_lt {j : ℕ} (hj : upper.Has j) : j < points.length := hj.2.trans_le h.stored

theorem signedArea_lower {i j : ℕ} (hi : lower.Has i) (hi' : lower.Has (i + 1)) (hj : upper.Has j) :
    Triangle.signedArea points (i, i + 1, j) = ((vertex points (i + 1)).x - (vertex points i).x) *
      ((vertex points upper.begin).y - (vertex points lower.begin).y) := by
  rw [Triangle.signedArea, Vtk.signedArea, h.lower_level i hi, h.lower_level _ hi', h.upper_level j hj]
  ring

theorem signedArea_upper {i j : ℕ} (hi : lower.Has i) (hj : upper.Has j) (hj' : upper.Has (j + 1)) :
    Triangle.signedArea points (i, j + 1, j) = ((vertex points (j + 1)).x - (vertex points j).x) *
      ((vertex points upper.begin).y - (vertex points lower.begin).y) := by
  rw [Triangle.signedArea, Vtk.signedArea, h.lower_level i hi, h.upper_level _ hj', h.upper_level j hj]
  ring

theorem signedArea_lower_pos {i j : ℕ} (hi : lower.Has i) (hi' : lower.Has (i + 1)) (hj : upper.Has j) :
    0 < Triangle.signedArea points (i, i + 1, j) := by
  rw [h.signedArea_lower hi hi' hj]
  exact mul_pos (sub_pos.mpr (h.lower_increasing i hi hi')) (sub_pos.mpr h.upward)

theorem signedArea_upper_pos {i j : ℕ} (hi : lower.Has i) (hj : upper.Has j) (hj' : upper.Has (j + 1)) :
    0 < Triangle.signedArea points (i, j + 1, j) := by
  rw [h.signedArea_upper hi hj hj']
  exact mul_pos (sub_pos.mpr (h.upper_increasing j hj hj')) (sub_pos.mpr h.upward)

theorem addTriangle_lower {i j : ℕ} (hi : lower.Has i) (hi' : lower.Has (i + 1)) (hj : upper.Has j)
    (ts : List Triangle) :
    addTriangle points ts i (i + 1) j = .ok (ts ++ kept points [stepTriangle (i, j) (i + 1, j)]) := by
  rw [stepTriangle_lower]
  exact addTriangle_pos (h.lower_lt hi) (h.lower_lt hi') (h.upper_lt hj) (h.signedArea_lower_pos hi hi' hj) ts

theorem addTriangle_upper {i j : ℕ} (hi : lower.Has i) (hj : upper.Has j) (hj' : upper.Has (j + 1))
    (ts : List Triangle) :
    addTriangle points ts i j (j + 1) = .ok (ts ++ kept points [stepTriangle (i, j) (i, j + 1)]) := by
  rw [stepTriangle_upper]
  exact addTriangle_neg (h.lower_lt hi) (h.upper_lt hj) (h.upper_lt hj') (h.signedArea_upper_pos hi hj hj') ts

omit h in
theorem walks_last : Walks points lower upper (lastEdge lower upper) fun _ => lastEdge lower upper := by
  refine ⟨.nil _, fun fuel ts => ?_⟩
  have hstay : ¬ ((lastEdge lower upper).1 + 1 < lower.stop ∨ (lastEdge lower upper).2 + 1 < upper.stop) := by
    simp only [lastEdge]
    omega
  have hzero : stairs (lastEdge lower upper) (lastEdge lower upper) = 0 := by
    simp only [stairs]
    omega
  rw [hzero, if_pos (Nat.zero_le _), walked, List.range_zero, List.map_nil, kept, List.filter_nil,
    List.append_nil]
  cases fuel with
  | zero =>
    rw [stripWalk, if_neg hstay]
    rfl
  | succ fuel =>
    rw [stripWalk, if_neg hstay]
    rfl

theorem walks_lower {i j : ℕ} {path : ℕ → ℕ × ℕ} (hpath : Walks points lower upper (i + 1, j) path)
    (hi : lower.Has i) (hi' : lower.Has (i + 1)) (hj : upper.Has j)
    (hstep : ∀ fuel ts, stripWalk points lower upper (fuel + 1) i j ts =
      addTriangle points ts i (i + 1) j >>= stripWalk points lower upper fuel (i + 1) j) :
    ∃ path, Walks points lower upper (i, j) path := by
  refine ⟨_, hpath.cons (.inl rfl) (.inl hi'.2) fun fuel ts => ?_⟩
  rw [hstep, h.addTriangle_lower hi hi' hj, ok_bind]

theorem walks_upper {i j : ℕ} {path : ℕ → ℕ × ℕ} (hpath : Walks points lower upper (i, j + 1) path)
    (hi : lower.Has i) (hj : upper.Has j) (hj' : upper.Has (j + 1))
    (hstep : ∀ fuel ts, stripWalk points lower upper (fuel + 1) i j ts =
      addTriangle points ts i j (j + 1) >>= stripWalk points lower upper fuel i (j + 1)) :
    ∃ path, Walks points lower upper (i, j) path := by
  refine ⟨_, hpath.cons (.inr rfl) (.inr hj'.2) fun fuel ts => ?_⟩
  rw [hstep, h.addTriangle_upper hi hj hj', ok_bind]

/-- The walk from any cross edge on. -/
theorem exists_walks (n : ℕ) {e : ℕ × ℕ} (he : lower.Has e.1) (he' : upper.Has e.2)
    (hn : stairs e (lastEdge lower upper) = n) : ∃ path, Walks points lower upper e path := by
  induction n generalizing e with
  | zero =>
    have h₁ := he.2
    have h₂ := he'.2
    simp only [stairs, lastEdge] at hn
    obtain rfl : e = lastEdge lower upper := by
      ext
      · show e.1 = lower.stop - 1
        omega
      · show e.2 = upper.stop - 1
        omega
    exact ⟨_, walks_last⟩
  | succ n ih =>
    obtain ⟨i, j⟩ := e
    have h₁ := he.1
    have h₂ := he.2
    have h₃ := he'.1
    have h₄ := he'.2
    simp only [stairs, lastEdge] at hn h₁ h₂ h₃ h₄
    have hgo : i + 1 < lower.stop ∨ j + 1 < upper.stop := by omega
    have hlower : lower.Has (i + 1) → ∃ path, Walks points lower upper (i + 1, j) path := by
      intro hi'
      have hlt := hi'.2
      refine ih (e := (i + 1, j)) hi' he' ?_
      simp only [stairs, lastEdge]
      omega
    have hupper : upper.Has (j + 1) → ∃ path, Walks points lower upper (i, j + 1) path := by
      intro hj'
      have hlt := hj'.2
      refine ih (e := (i, j + 1)) he hj' ?_
      simp only [stairs, lastEdge]
      omega
    by_cases hlast : j + 1 = upper.stop
    · have hi' : lower.Has (i + 1) := ⟨by omega, by omega⟩
      obtain ⟨path, hpath⟩ := hlower hi'
      refine h.walks_lower hpath he hi' he' fun fuel ts => ?_
      rw [stripWalk, if_pos hgo, if_pos hlast]
    by_cases hlast' : i + 1 = lower.stop
    · have hj' : upper.Has (j + 1) := ⟨by omega, by omega⟩
      obtain ⟨path, hpath⟩ := hupper hj'
      refine h.walks_upper hpath he he' hj' fun fuel ts => ?_
      rw [stripWalk, if_pos hgo, if_neg hlast, if_pos hlast']
    have hi' : lower.Has (i + 1) := ⟨by omega, by omega⟩
    have hj' : upper.Has (j + 1) := ⟨by omega, by omega⟩
    by_cases hx : (vertex points (i + 1)).x < (vertex points (j + 1)).x
    · obtain ⟨path, hpath⟩ := hlower hi'
      refine h.walks_lower hpath he hi' he' fun fuel ts => ?_
      rw [stripWalk, if_pos hgo, if_neg hlast, if_neg hlast', readAt_vertex (h.lower_lt hi'), ok_bind,
        readAt_vertex (h.upper_lt hj'), ok_bind, if_pos hx]
    · obtain ⟨path, hpath⟩ := hupper hj'
      refine h.walks_upper hpath he he' hj' fun fuel ts => ?_
      rw [stripWalk, if_pos hgo, if_neg hlast, if_neg hlast', readAt_vertex (h.lower_lt hi'), ok_bind,
        readAt_vertex (h.upper_lt hj'), ok_bind, if_neg hx]

/-- **The walk is a staircase**, from the first cross edge to the last one. -/
theorem exists_walk : ∃ path, Walks points lower upper (firstEdge lower upper) path :=
  h.exists_walks _ ⟨le_rfl, h.lower_pos⟩ ⟨le_rfl, h.upper_pos⟩ rfl

/-! ## The steps -/

variable {path : ℕ → ℕ × ℕ} (hs : Staircase (firstEdge lower upper) (lastEdge lower upper) path)

include hs

theorem crosses {k : ℕ} (hk : k ≤ stepCount lower upper) :
    lower.Has (path k).1 ∧ upper.Has (path k).2 := by
  have hstart := hs.start_le hk
  have hle := hs.le k hk
  have h₁ := hstart.1
  have h₂ := hstart.2
  have h₃ := hle.1
  have h₄ := hle.2
  have h₅ := h.lower_pos
  have h₆ := h.upper_pos
  simp only [firstEdge, lastEdge] at h₁ h₂ h₃ h₄
  exact ⟨⟨h₁, by omega⟩, ⟨h₂, by omega⟩⟩

/-- A step goes along the lower row or along the upper row. -/
theorem step_cases {k : ℕ} (hk : k < stepCount lower upper) :
    ∃ i j, path k = (i, j) ∧ lower.Has i ∧ upper.Has j ∧
      ((lower.Has (i + 1) ∧ path (k + 1) = (i + 1, j) ∧
          stepTriangle (path k) (path (k + 1)) = (i, i + 1, j)) ∨
        (upper.Has (j + 1) ∧ path (k + 1) = (i, j + 1) ∧
          stepTriangle (path k) (path (k + 1)) = (i, j + 1, j))) := by
  have hcross := h.crosses hs hk.le
  have hcross' := h.crosses hs hk
  refine ⟨(path k).1, (path k).2, rfl, hcross.1, hcross.2, ?_⟩
  rcases hs.step k hk with he | he
  · rw [he] at hcross' ⊢
    exact .inl ⟨hcross'.1, rfl, stepTriangle_lower _ _⟩
  · rw [he] at hcross' ⊢
    exact .inr ⟨hcross'.2, rfl, stepTriangle_upper _ _⟩

end Ordered

end TPC.Vtk
