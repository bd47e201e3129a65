import TPC.Analytics.Models
import TPC.Lib.Fold

/-!
# The generated grid

The points that `for_each_grid_point` of `calculate_grid_kernel` visits, in order: for every
layer, the staggered rows clipped by the disc. Both of its passes (counting, then storing) visit
the same sequence. The two inner loops run on accumulated `double`s; `fuel` bounds the number of
iterations of each, and `none` says that a loop was still running.

* `loopValues`: `for (v = start; v <= bound; v += step)`;
* `rowPoints`, `layerRows`, `layerZ`, `gridPoints`; `length_gridPoints_le`.
-/

namespace TPC.Analytics

open Arith

variable {F : Type} [Arith F]

/-- The values of an accumulating loop variable. -/
def loopValues (bound step : F) : ℕ → F → Option (List F)
  | 0, v => if v ≤ bound then none else some []
  | fuel + 1, v =>
    if v ≤ bound then (loopValues bound step fuel (v + step)).map (v :: ·) else some []

section Kernel

variable (fuel : ℕ) (gridDimensions : Fin 3 → ℕ) (radius depth : F)

def stepX : F := radius / ((gridDimensions 0 - 1 : ℕ) : F)

def stepY : F := radius / ((gridDimensions 1 - 1 : ℕ) : F) * sqrt 3.0 * 0.5

def stepZ : F := depth / ((gridDimensions 2 - 1 : ℕ) : F)

/-- The points of one row that lie in the disc. -/
def rowPoints (y : F) (row : ℕ) : Option (List (F × F)) := do
  let stepX := stepX gridDimensions radius
  let xOffset := if row % 2 = 0 then 0 else stepX * 0.5
  let xs ← loopValues (radius + stepX * 0.5) stepX fuel (-radius + xOffset)
  return (xs.filter fun x => x * x + y * y ≤ radius * radius).map fun x => (x, y)

/-- The rows of one layer, empty ones included. -/
def layerRows : Option (List (List (F × F))) := do
  let stepY := stepY gridDimensions radius
  let ys ← loopValues (radius + stepY * 0.5) stepY fuel (-radius)
  ys.zipIdx.mapM fun p => rowPoints fuel gridDimensions radius p.1 p.2

/-- The height of layer `iz`. -/
def layerZ (iz : ℕ) : F := -depth * 0.5 + (iz : F) * stepZ gridDimensions depth

/-- The visited points; every layer repeats the same rows. -/
def gridPoints : Option (List (F × F × F)) := do
  let rows ← layerRows fuel gridDimensions radius
  return (List.range (gridDimensions 2)).flatMap fun iz =>
    rows.flatten.map fun p => (p.1, p.2, layerZ gridDimensions depth iz)

/-- The stored coordinates of a visited point. -/
def polar (p : F × F × F) : F × F × F :=
  let r := hypot p.1 p.2.1
  (r, if r < epsilon then 0 else atan2 p.2.1 p.1, p.2.2)

variable {fuel gridDimensions radius depth}

theorem length_loopValues_le {bound step : F} {n : ℕ} {v : F} {l : List F}
    (h : loopValues bound step n v = some l) : l.length ≤ n := by
  induction n generalizing v l with
  | zero =>
    unfold loopValues at h
    split_ifs at h
    cases h
    exact le_rfl
  | succ n ih =>
    unfold loopValues at h
    split_ifs at h
    · obtain ⟨l', hl', rfl⟩ := Option.map_eq_some_iff.mp h
      exact Nat.succ_le_succ (ih hl')
    · cases h
      exact Nat.zero_le _

theorem length_rowPoints_le {y : F} {row : ℕ} {l : List (F × F)}
    (h : rowPoints fuel gridDimensions radius y row = some l) : l.length ≤ fuel := by
  obtain ⟨xs, hxs, h⟩ := Option.bind_eq_some_iff.mp h
  cases h
  rw [List.length_map]
  exact (List.length_filter_le _ _).trans (length_loopValues_le hxs)

theorem length_layerRows_le {rows : List (List (F × F))}
    (h : layerRows fuel gridDimensions radius = some rows) :
    rows.flatten.length ≤ fuel * fuel := by
  obtain ⟨ys, hys, h⟩ := Option.bind_eq_some_iff.mp h
  refine (Fold.length_flatten_le (fun p row hp => length_rowPoints_le hp) h).trans ?_
  rw [List.length_zipIdx]
  exact Nat.mul_le_mul_right _ (length_loopValues_le hys)

theorem gridPoints_eq_some {points : List (F × F × F)} :
    gridPoints fuel gridDimensions radius depth = some points ↔
      ∃ rows, layerRows fuel gridDimensions radius = some rows ∧
        points = (List.range (gridDimensions 2)).flatMap fun iz =>
          rows.flatten.map fun p => (p.1, p.2, layerZ gridDimensions depth iz) := by
  unfold gridPoints
  constructor
  · intro h
    obtain ⟨rows, hrows, h⟩ := Option.bind_eq_some_iff.mp h
    cases h
    exact ⟨rows, hrows, rfl⟩
  · rintro ⟨rows, hrows, rfl⟩
    rw [hrows]
    rfl

/-- The two loop bounds also bound the number of points. -/
theorem length_gridPoints_le {points : List (F × F × F)}
    (h : gridPoints fuel gridDimensions radius depth = some points) :
    points.length ≤ gridDimensions 2 * (fuel * fuel) := by
  obtain ⟨rows, hrows, rfl⟩ := gridPoints_eq_some.mp h
  rw [List.length_flatMap]
  simp only [List.length_map, List.map_const', List.length_range, List.sum_replicate, smul_eq_mul]
  exact Nat.mul_le_mul_left _ (length_layerRows_le hrows)

end Kernel

end TPC.Analytics
