import TPC.Analytics.Grid
import Mathlib

/-!
# The generated grid in exact arithmetic

With positive steps every accumulating loop ends, and its values are equally spaced.

* `loopValues_real`: the values of one loop;
* `rowY`, `rowX`, `latticeRow`: row `j` of the staggered lattice, clipped by the disc;
* `EnoughFuel`, `exists_enoughFuel`, `enoughFuel_of_layerRows`;
* **`layerRows_real`**: a layer is the list of its lattice rows; `exists_gridPoints`.
-/

namespace TPC.Analytics

open Arith

/-- An accumulating loop with a positive step visits `v + k * step` while that is in bounds. -/
theorem loopValues_real (bound : ℝ) {step : ℝ} (hs : 0 < step) (fuel : ℕ) (v : ℝ)
    (hf : bound < v + fuel * step) : ∃ n, (∀ k : ℕ, k < n ↔ v + k * step ≤ bound) ∧
      loopValues bound step fuel v = some ((List.range n).map fun k : ℕ => v + k * step) := by
  induction fuel generalizing v with
  | zero =>
    rw [Nat.cast_zero, zero_mul, add_zero] at hf
    refine ⟨0, fun k => ⟨fun h => absurd h (Nat.not_lt_zero k), fun h => ?_⟩, ?_⟩
    · have : 0 ≤ k * step := by positivity
      linarith
    · rw [loopValues, if_neg (not_le.mpr hf)]
      rfl
  | succ fuel ih =>
    by_cases hv : v ≤ bound
    · obtain ⟨n, hn, hl⟩ := ih (v + step) (by push_cast at hf; linarith)
      refine ⟨n + 1, fun k => ?_, ?_⟩
      · cases k with
        | zero => simpa using hv
        | succ k =>
          rw [Nat.succ_lt_succ_iff, hn k]
          push_cast
          rw [show v + (k + 1) * step = v + step + k * step by ring]
      · rw [loopValues, if_pos hv, hl, Option.map_some, List.range_succ_eq_map, List.map_cons,
          List.map_map]
        congr 2
        · simp
        · refine List.map_congr_left fun k _ => ?_
          simp only [Function.comp_apply, Nat.succ_eq_add_one]
          push_cast
          ring
    · refine ⟨0, fun k => ⟨fun h => absurd h (Nat.not_lt_zero k), fun h => ?_⟩, ?_⟩
      · have : 0 ≤ k * step := by positivity
        linarith
      · rw [loopValues, if_neg hv]
        rfl

theorem loopValues_eq_none {bound step : ℝ} (hs : 0 ≤ step) (fuel : ℕ) (v : ℝ) (h : v + fuel * step ≤ bound) :
    loopValues bound step fuel v = none := by
  induction fuel generalizing v with
  | zero =>
    rw [Nat.cast_zero, zero_mul, add_zero] at h
    rw [loopValues, if_pos h]
  | succ fuel ih =>
    push_cast at h
    have hle : 0 ≤ (fuel : ℝ) * step := by positivity
    rw [loopValues, if_pos (by linarith), ih (v + step) (by linarith), Option.map_none]

section Rows

variable (g : Fin 3 → ℕ) (radius : ℝ)

/-- The height of row `j`. -/
noncomputable def rowY (j : ℕ) : ℝ := -radius + j * stepY g radius

/-- The abscissa of point `k` of row `j`; odd rows are shifted by half a step. -/
noncomputable def rowX (j k : ℕ) : ℝ :=
  -radius + (if j % 2 = 0 then 0 else stepX g radius * 0.5) + k * stepX g radius

/-- The points of row `j` among its first `cols` that lie in the disc. -/
noncomputable def latticeRow (j cols : ℕ) : List (ℝ × ℝ) :=
  (((List.range cols).map (rowX g radius j)).filter fun x =>
    x * x + rowY g radius j * rowY g radius j ≤ radius * radius).map fun x => (x, rowY g radius j)

/-- `fuel` iterations are enough for both loops. -/
def EnoughFuel (fuel : ℕ) : Prop :=
  2 * radius + stepY g radius * 0.5 < fuel * stepY g radius ∧
    2 * radius + stepX g radius * 0.5 < fuel * stepX g radius

variable {g radius}

theorem stepX_pos (hg : 2 ≤ g 0) (hr : 0 < radius) : 0 < stepX g radius := by
  unfold stepX
  have : (0 : ℝ) < ((g 0 - 1 : ℕ) : ℝ) := by exact_mod_cast (by omega : 0 < g 0 - 1)
  exact div_pos hr this

theorem stepY_pos (hg : 2 ≤ g 1) (hr : 0 < radius) : 0 < stepY g radius := by
  unfold stepY
  have : (0 : ℝ) < ((g 1 - 1 : ℕ) : ℝ) := by exact_mod_cast (by omega : 0 < g 1 - 1)
  have h₃ : 0 < √(3.0 : ℝ) := Real.sqrt_pos.mpr (by norm_num)
  exact mul_pos (mul_pos (div_pos hr this) h₃) (by norm_num)

theorem exists_enoughFuel (hg₀ : 2 ≤ g 0) (hg₁ : 2 ≤ g 1) (hr : 0 < radius) :
    ∃ fuel₀, ∀ fuel, fuel₀ ≤ fuel → EnoughFuel g radius fuel := by
  have hx := stepX_pos hg₀ hr
  have hy := stepY_pos hg₁ hr
  obtain ⟨a, ha⟩ := exists_nat_gt ((2 * radius + stepY g radius * 0.5) / stepY g radius)
  obtain ⟨b, hb⟩ := exists_nat_gt ((2 * radius + stepX g radius * 0.5) / stepX g radius)
  refine ⟨max a b, fun fuel hf => ⟨?_, ?_⟩⟩
  · rw [← div_lt_iff₀ hy]
    exact ha.trans_le (by exact_mod_cast (le_max_left a b).trans hf)
  · rw [← div_lt_iff₀ hx]
    exact hb.trans_le (by exact_mod_cast (le_max_right a b).trans hf)

/-- Loops that have ended had enough fuel. -/
theorem enoughFuel_of_layerRows (hg₀ : 2 ≤ g 0) (hg₁ : 2 ≤ g 1) (hr : 0 < radius) {fuel : ℕ}
    {rows : List (List (ℝ × ℝ))} (h : layerRows fuel g radius = some rows) : EnoughFuel g radius fuel := by
  have hx := stepX_pos hg₀ hr
  have hy := stepY_pos hg₁ hr
  obtain ⟨ys, hys, h⟩ := Option.bind_eq_some_iff.mp h
  constructor
  · by_contra hle
    rw [loopValues_eq_none hy.le fuel (-radius) (by linarith)] at hys
    cases hys
  · by_contra hle
    -- the first row has no end
    have hrow : rowPoints fuel g radius (-radius) 0 = none := by
      have hnone : loopValues (radius + stepX g radius * 0.5) (stepX g radius) fuel (-radius + 0) = none :=
        loopValues_eq_none hx.le fuel (-radius + 0) (by linarith)
      unfold rowPoints
      dsimp only
      rw [if_pos rfl]
      exact congrArg (Option.bind · _) hnone
    cases fuel with
    | zero =>
      rw [loopValues, if_pos (by linarith)] at hys
      cases hys
    | succ fuel =>
      rw [loopValues, if_pos (by linarith)] at hys
      obtain ⟨ys', -, rfl⟩ := Option.map_eq_some_iff.mp hys
      rw [List.zipIdx_cons, List.mapM_cons] at h
      dsimp only at h
      rw [hrow] at h
      cases h

theorem rowPoints_real (hg₀ : 2 ≤ g 0) (hr : 0 < radius) {fuel : ℕ}
    (hf : EnoughFuel g radius fuel) (j : ℕ) :
    ∃ cols, (∀ k : ℕ, k < cols ↔ rowX g radius j k ≤ radius + stepX g radius * 0.5) ∧
      rowPoints fuel g radius (rowY g radius j) j = some (latticeRow g radius j cols) := by
  have hx := stepX_pos hg₀ hr
  have hoff : (0 : ℝ) ≤ if j % 2 = 0 then 0 else stepX g radius * 0.5 := by
    split_ifs
    · exact le_rfl
    · positivity
  obtain ⟨cols, hc, hl⟩ := loopValues_real (radius + stepX g radius * 0.5) hx fuel
    (-radius + if j % 2 = 0 then 0 else stepX g radius * 0.5) (by have := hf.2; linarith)
  refine ⟨cols, hc, ?_⟩
  unfold rowPoints
  dsimp only
  rw [hl]
  rfl

/-- **A layer is the list of its lattice rows.** -/
theorem layerRows_real (hg₀ : 2 ≤ g 0) (hg₁ : 2 ≤ g 1) (hr : 0 < radius) {fuel : ℕ}
    (hf : EnoughFuel g radius fuel) : ∃ (n : ℕ) (cols : ℕ → ℕ),
      (∀ j : ℕ, j < n ↔ rowY g radius j ≤ radius + stepY g radius * 0.5) ∧
      (∀ j k : ℕ, k < cols j ↔ rowX g radius j k ≤ radius + stepX g radius * 0.5) ∧
      layerRows fuel g radius = some ((List.range n).map fun j => latticeRow g radius j (cols j)) := by
  have hy := stepY_pos hg₁ hr
  obtain ⟨n, hn, hl⟩ := loopValues_real (radius + stepY g radius * 0.5) hy fuel (-radius)
    (by have := hf.1; linarith)
  choose cols hc hp using rowPoints_real hg₀ hr hf
  refine ⟨n, cols, hn, hc, ?_⟩
  have hz : ((List.range n).map fun k : ℕ => -radius + k * stepY g radius).zipIdx =
      (List.range n).map fun j => (rowY g radius j, j) := by
    refine List.ext_getElem (by simp) fun i _ _ => ?_
    simp [rowY]
  unfold layerRows
  dsimp only
  rw [hl]
  change List.mapM (fun p => rowPoints fuel g radius p.1 p.2) (List.zipIdx _) = _
  rw [hz, List.mapM_map]
  exact (congrArg (fun f => (List.range n).mapM f) (funext hp)).trans List.mapM_pure

theorem mem_latticeRow {j cols : ℕ} {p : ℝ × ℝ} : p ∈ latticeRow g radius j cols ↔
    ∃ k < cols, p = (rowX g radius j k, rowY g radius j) ∧
      p.1 * p.1 + p.2 * p.2 ≤ radius * radius := by
  simp only [latticeRow, List.mem_map, List.mem_filter, List.mem_range, decide_eq_true_eq]
  constructor
  · rintro ⟨x, ⟨⟨k, hk, rfl⟩, hx⟩, rfl⟩
    exact ⟨k, hk, rfl, hx⟩
  · rintro ⟨k, hk, rfl, hx⟩
    exact ⟨_, ⟨⟨k, hk, rfl⟩, hx⟩, rfl⟩

theorem rowX_even (radius : ℝ) (hg₀ : 2 ≤ g 0) {j : ℕ} (hj : j % 2 = 0) : rowX g radius j (g 0 - 1) = 0 := by
  have h : ((g 0 - 1 : ℕ) : ℝ) ≠ 0 := by exact_mod_cast (by omega : g 0 - 1 ≠ 0)
  rw [rowX, if_pos hj, stepX, mul_div_cancel₀ _ h]
  ring

theorem rowX_odd (hg₀ : 2 ≤ g 0) {j : ℕ} (hj : j % 2 ≠ 0) :
    rowX g radius j (g 0 - 1) = stepX g radius * 0.5 ∧
      rowX g radius j (g 0 - 2) = -(stepX g radius * 0.5) := by
  have h : ((g 0 - 1 : ℕ) : ℝ) ≠ 0 := by exact_mod_cast (by omega : g 0 - 1 ≠ 0)
  have hmul : ((g 0 - 1 : ℕ) : ℝ) * stepX g radius = radius := by
    rw [stepX, mul_div_cancel₀ _ h]
  have hsub : ((g 0 - 2 : ℕ) : ℝ) = ((g 0 - 1 : ℕ) : ℝ) - 1 := by
    rw [Nat.cast_sub hg₀, Nat.cast_sub (by omega : 1 ≤ g 0)]
    norm_num
    ring
  constructor
  · rw [rowX, if_neg hj, hmul]
    ring
  · rw [rowX, if_neg hj, hsub, sub_mul, hmul]
    ring

theorem pole_mem_latticeRow (hg₀ : 2 ≤ g 0) (hr : 0 < radius) {cols : ℕ}
    (hc : ∀ k : ℕ, k < cols ↔ rowX g radius 0 k ≤ radius + stepX g radius * 0.5) :
    ((0 : ℝ), -radius) ∈ latticeRow g radius 0 cols := by
  have hx := stepX_pos hg₀ hr
  have hx₀ := rowX_even radius hg₀ (j := 0) rfl
  have h₀ : rowY g radius 0 = -radius := by simp [rowY]
  refine mem_latticeRow.mpr ⟨g 0 - 1, (hc _).mpr ?_, by rw [hx₀, h₀], by simp⟩
  rw [hx₀]
  linarith

theorem exists_gridPoints (hg₀ : 2 ≤ g 0) (hg₁ : 2 ≤ g 1) (hg₂ : 2 ≤ g 2) (hr : 0 < radius)
    (depth : ℝ) {fuel : ℕ} (hf : EnoughFuel g radius fuel) :
    ∃ points, gridPoints fuel g radius depth = some points ∧ points ≠ [] := by
  have hy := stepY_pos hg₁ hr
  obtain ⟨n, cols, hn, hc, hrows⟩ := layerRows_real hg₀ hg₁ hr hf
  have hp : ((0 : ℝ), -radius) ∈
      ((List.range n).map fun j => latticeRow g radius j (cols j)).flatten := by
    refine List.mem_flatten.mpr ⟨_, List.mem_map.mpr ⟨0, List.mem_range.mpr ?_, rfl⟩,
      pole_mem_latticeRow hg₀ hr (hc 0)⟩
    rw [hn, rowY, Nat.cast_zero]
    linarith
  refine ⟨_, gridPoints_eq_some.mpr ⟨_, hrows, rfl⟩, List.ne_nil_of_mem
    (a := ((0 : ℝ), -radius, layerZ g depth 0)) (List.mem_flatMap.mpr ⟨0, ?_, ?_⟩)⟩
  · exact List.mem_range.mpr (by omega)
  · exact List.mem_map.mpr ⟨_, hp, rfl⟩

end Rows

end TPC.Analytics
