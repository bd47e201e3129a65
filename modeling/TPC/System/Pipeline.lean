import TPC.Analytics.Clipped
import TPC.Analytics.Topology
import TPC.System.Export
import TPC.Vtk.Volume

/-!
# From the coefficients to the file

`calculate_field` and then `export_to_vtk`, in exact arithmetic: what a reader of the file finds.

* `Near`: the points that `(r, phi, z)` does not keep;
* `stores_of_gridPoints`: the generated coordinates, as layers of rows;
* `Pictures`: a file that shows the field of a manager on the points of the clipped lattice;
* `exists_pictures`, **`calculateField_exports`**: the file of a field that has been calculated.
-/

namespace TPC.System.Pipeline

open Analytics AnalyticsManager Vtk Fold
open Arith hiding max

variable {g : Fin 3 → ℕ} {radius length : ℝ} {fuel : ℕ}

/-- Next to the axis, but not on it. -/
def Near (p : ℝ × ℝ × ℝ) : Prop := 0 < hypot p.1 p.2.1 ∧ hypot p.1 p.2.1 < (epsilon : ℝ)

/-! ## The mesh -/

theorem heights_pairwise (hg₂ : 2 ≤ g 2) (hl : 0 < length) : (heights g length).Pairwise (· < ·) := by
  have hz : 0 < stepZ g length := by
    unfold stepZ
    have : (0 : ℝ) < ((g 2 - 1 : ℕ) : ℝ) := by exact_mod_cast (by omega : 0 < g 2 - 1)
    exact div_pos hl this
  rw [heights, List.pairwise_map]
  refine List.pairwise_lt_range.imp fun {i j} hij => ?_
  have hcast : (i : ℝ) < j := by exact_mod_cast hij
  unfold layerZ
  linarith [mul_lt_mul_of_pos_right hcast hz]

theorem heights_first (hg₂ : 2 ≤ g 2) : (heights g length).getD 0 0 = -(length / 2) := by
  rw [heights, List.getD_eq_getElem?_getD, List.getElem?_map, List.getElem?_range (by omega)]
  simp only [Option.map_some, Option.getD_some, layerZ]
  norm_num
  ring

theorem heights_last (hg₂ : 2 ≤ g 2) : (heights g length).getD ((heights g length).length - 1) 0 = length / 2 := by
  have hne : ((g 2 - 1 : ℕ) : ℝ) ≠ 0 := by exact_mod_cast (by omega : g 2 - 1 ≠ 0)
  rw [length_heights, heights, List.getD_eq_getElem?_getD, List.getElem?_map, List.getElem?_range (by omega)]
  simp only [Option.map_some, Option.getD_some, layerZ, stepZ]
  rw [mul_div_cancel₀ _ hne]
  norm_num
  ring

/-- The points that have been generated are stored as layers of rows of the clipped lattice. -/
theorem stores_of_gridPoints (h : Resolved g radius length) {points : List (ℝ × ℝ × ℝ)}
    (hp : gridPoints fuel g radius length = some points) (hsize : points.length * 3 ≤ vectorMax)
    (hnear : ∀ p ∈ points, ¬ Near p) : ∃ rows, ClippedLattice g radius rows ∧
      Stores length (stepZ g length) (stepX g radius) (stepY g radius) radius (heights g length)
        (nonemptyRows rows) (points.map polar) := by
  obtain ⟨rows, hrows, hpoints⟩ := gridPoints_eq_some.mp hp
  refine ⟨rows, clippedLattice_of_layerRows (h.dims 0) (h.dims 1) h.radius_pos hrows, ?_⟩
  have hfuel := enoughFuel_of_layerRows (h.dims 0) (h.dims 1) h.radius_pos hrows
  obtain ⟨n, cols, hn, hc, hrows'⟩ := layerRows_real (h.dims 0) (h.dims 1) h.radius_pos hfuel
  rw [hrows] at hrows'
  exact stores_generated h hn hc (Option.some.inj hrows') hpoints hsize hnear

theorem convex_disc : Convex ℝ {p : ℝ × ℝ | InDisc radius p} := by
  intro p hp q hq a b ha hb hab
  have hp' : p.1 ^ 2 + p.2 ^ 2 ≤ radius ^ 2 := hp
  have hq' : q.1 ^ 2 + q.2 ^ 2 ≤ radius ^ 2 := hq
  obtain rfl : b = 1 - a := by linarith
  show (a * p.1 + (1 - a) * q.1) ^ 2 + (a * p.2 + (1 - a) * q.2) ^ 2 ≤ radius ^ 2
  -- the squares of a point between are less by `a (1 - a)` times the squares of the difference
  have hmix : (a * p.1 + (1 - a) * q.1) ^ 2 + (a * p.2 + (1 - a) * q.2) ^ 2 =
      a * (p.1 ^ 2 + p.2 ^ 2) + (1 - a) * (q.1 ^ 2 + q.2 ^ 2) -
        a * (1 - a) * ((p.1 - q.1) ^ 2 + (p.2 - q.2) ^ 2) := by ring
  have h₁ := mul_le_mul_of_nonneg_left hp' ha
  have h₂ := mul_le_mul_of_nonneg_left hq' hb
  have h₃ : 0 ≤ a * (1 - a) * ((p.1 - q.1) ^ 2 + (p.2 - q.2) ^ 2) := by positivity
  rw [hmix]
  linarith

/-! ## The field -/

/-- What `evaluate_for_point` gives at a Cartesian point, rotated into Cartesian components. -/
def FieldAt (m : AnalyticsManager ℝ) (p : CartesianPoint ℝ) (v : ℝ × ℝ × ℝ) : Prop :=
  ∃ b, m.evaluateForPoint (toArray (polar (p.x, p.y, p.z))) = .ok ⟨toArray b, .cylindric⟩ ∧
    v = toVector (polar (p.x, p.y, p.z)) b

theorem fieldAt_vectors {m : AnalyticsManager ℝ} (hc : ¬ m.coefficientsMissing) {points bs : List (ℝ × ℝ × ℝ)}
    (h : m.HoldsField (points.map polar) bs) (hnear : ∀ p ∈ points, ¬ Near p) :
    List.Forall₂ (FieldAt m) ((points.map polar).map toPoint) (List.zipWith toVector (points.map polar) bs) := by
  induction points generalizing bs with
  | nil =>
    cases h
    exact .nil
  | cons p points ih =>
    rw [HoldsField, List.map_cons, List.forall₂_cons_left_iff] at h
    obtain ⟨b, bs, hb, hbs, rfl⟩ := h
    refine .cons ⟨b, ?_, ?_⟩ (ih hbs fun q hq => hnear q (List.mem_cons_of_mem _ hq))
    · rw [toPoint_polar (hnear p List.mem_cons_self), evaluateForPoint_of_not_missing hc]
      exact congrArg (Except.map _) hb
    · rw [toPoint_polar (hnear p List.mem_cons_self)]
      rfl

/-- What a reader finds in the file of a field: the points of the clipped lattice in every layer, the field
of the manager at each of them, and a valid mesh that fills the strips between adjacent rows from one end
of the cylinder to the other. -/
structure Pictures (m : AnalyticsManager ℝ) (g : Fin 3 → ℕ) (radius length : ℝ) (rows : List (List (ℝ × ℝ)))
    (file : VtkFile ℝ) (grid : UnstructuredGrid ℝ) : Prop where
  parse : Reader.parse readGrid file.tokens = some grid
  lattice : ClippedLattice g radius rows
  points : grid.points = prism (heights g length) rows.flatten
  /-- No point is next to the axis. -/
  apart : ∀ p ∈ grid.points, ¬ Near (p.x, p.y, p.z)
  vectors : List.Forall₂ (FieldAt m) grid.points grid.vectors
  mesh : Fills grid.points grid.cells (nonemptyRows rows) (-(length / 2)) (length / 2)
  inside : crossSection (nonemptyRows rows) ⊆ {p | InDisc radius p}

/-- The file of a manager whose collection has been completed. -/
theorem exists_pictures {m : AnalyticsManager ℝ} {fd₀ : FieldCollection ℝ} {points bs : List (ℝ × ℝ × ℝ)}
    (h : Resolved g radius length) (ha : m.Accepts radius length) (hc : m.Calculates fuel g radius length points bs)
    (hnear : ∀ p ∈ points, ¬ Near p) {fs : FileSystem} {path : String} (hpath : path ≠ "") (hfs : fs.Works path) :
    ∃ rows file grid, Export.exportToVtk (export3dFieldToVtk fs)
        (m.completed (stored fd₀ (points.map polar) bs)) path = .ok file ∧
      Pictures (m.completed (stored fd₀ (points.map polar) bs)) g radius length rows file grid := by
  obtain ⟨rows, hlattice, hstores⟩ := stores_of_gridPoints h hc.grid hc.size hnear
  have hfield : (flat bs).length = (flat (points.map polar)).length := by
    rw [length_flat, length_flat, hc.field.length_eq]
  obtain ⟨file, grid, hfile, hgrid, hpoints, hfills⟩ :=
    hstores.exists_mesh (heights_pairwise (h.dims 2) h.length_pos) hfield hpath
  rw [heights_first (h.dims 2), heights_last (h.dims 2)] at hfills
  have hempty : ¬ Export.EmptyBuffer (stored fd₀ (points.map polar) bs) := by
    have hlen := hstores.length_cs
    have hpos := Nat.mul_pos hstores.layers_pos hstores.flatten_pos
    have hbs := hc.field.length_eq
    simp only [Export.EmptyBuffer, List.isEmpty_iff_length_eq_zero, length_field_stored,
      length_coordinates_stored]
    omega
  refine ⟨rows, file, grid, ?_, hgrid.parse, hlattice, ?_, ?_, ?_, hfills, ?_⟩
  · rw [Export.exportToVtk_of_not_empty hpath rfl hempty]
    exact congrArg Export.forward (export3dFieldToVtk_of_works hfs hfile)
  · rw [hpoints, flatten_nonemptyRows]
  · rw [hgrid.points, unflat_flat, List.forall_mem_map, List.forall_mem_map]
    intro p hp
    rw [toPoint_polar (hnear p hp)]
    exact hnear p hp
  · rw [hgrid.vectors, hgrid.points, unflat_flat, unflat_flat]
    exact fieldAt_vectors (m := m.completed _) ha.2.2 hc.field hnear
  · refine crossSection_subset convex_disc fun row hrow p hp => ?_
    exact hlattice.inDisc (mem_nonemptyRows.mp hrow).1 hp

/-- **The file of a field that has been calculated**: whatever the coefficients are, the export succeeds,
and its file pictures the field. -/
theorem calculateField_exports {svd : JacobiSVD ℝ} {m m' : AnalyticsManager ℝ} (h : Resolved g radius length)
    (hends : Ends svd m (.calculateField fuel g radius length) (.ok ()) m')
    (hnear : ∀ points, gridPoints fuel g radius length = some points → ∀ p ∈ points, ¬ Near p)
    {fs : FileSystem} {path : String} (hpath : path ≠ "") (hfs : fs.Works path) :
    ∃ rows file grid, Export.exportToVtk (export3dFieldToVtk fs) m' path = .ok file ∧
      Pictures m' g radius length rows file grid := by
  cases calculateField_spec hends with
  | completed fd₀ points bs ha hc => exact exists_pictures h ha hc (hnear points hc.grid) hpath hfs

/-! ## The coarsest grid of the unit cylinder -/

theorem not_near_unit {points : List (ℝ × ℝ × ℝ)} (h : gridPoints fuel (fun _ => 2) 1 1 = some points) :
    ∀ p ∈ points, ¬ Near p := by
  obtain ⟨rows, hrows, rfl⟩ := gridPoints_eq_some.mp h
  have hlattice := clippedLattice_of_layerRows (g := fun _ => 2) le_rfl le_rfl one_pos hrows
  intro p hp hnear
  obtain ⟨iz, -, hp⟩ := List.mem_flatMap.mp hp
  obtain ⟨q, hq, rfl⟩ := List.mem_map.mp hp
  obtain ⟨row, hrow, hq⟩ := List.mem_flatten.mp hq
  obtain ⟨j, hj⟩ := List.mem_iff_getElem?.mp hrow
  have hstep : stepY (fun _ => 2) (1 : ℝ) = √3 / 2 := by
    norm_num [stepY, Arith.sqrt_real]
    exact mul_one_div _ _
  have hy : q.2 = -1 + j * (√3 / 2) := by rw [hlattice.level hj hq, rowY, hstep]
  have hlt : |q.2| < 1 / 10 := by
    refine lt_of_le_of_lt ?_ (hnear.2.trans ?_)
    · rw [Arith.hypot_real, ← Real.sqrt_sq_eq_abs]
      exact Real.sqrt_le_sqrt (by nlinarith [sq_nonneg q.1])
    · rw [Arith.epsilon_real]
      norm_num
  have hlow : 1.73 ≤ √(3 : ℝ) := Real.le_sqrt_of_sq_le (by norm_num)
  have hhigh : √(3 : ℝ) ≤ 1.75 := Real.sqrt_le_iff.mpr ⟨by norm_num, by norm_num⟩
  rw [hy, abs_lt] at hlt
  -- the first two rows are below the axis, the others above it
  rcases Nat.lt_or_ge j 2 with hj | hj
  · have hcast : (j : ℝ) ≤ 1 := by exact_mod_cast Nat.lt_succ_iff.mp hj
    nlinarith [hlt.1]
  · have hcast : (2 : ℝ) ≤ j := by exact_mod_cast hj
    nlinarith [hlt.2]

theorem works_workingFiles : workingFiles.Works "field.vtk" := ⟨rfl, rfl, rfl⟩

/-- `calculateField_exports` for this grid and a constant field. -/
theorem calculateField_exports_unit : ∃ (m' : AnalyticsManager ℝ) (rows : List (List (ℝ × ℝ))) (file : VtkFile ℝ)
    (grid : UnstructuredGrid ℝ),
      Ends columnSVD (fitted none false 1) (.calculateField 10 (fun _ => 2) 1 1) (.ok ()) m' ∧
      Export.exportToVtk (export3dFieldToVtk workingFiles) m' "field.vtk" = .ok file ∧
      Pictures m' (fun _ => 2) 1 1 rows file grid := by
  obtain ⟨m', hends⟩ := exists_ends_constant
  obtain ⟨rows, file, grid, hfile, hgrid⟩ := calculateField_exports resolved_unit hends
    (fun points hp => not_near_unit hp) (by decide : "field.vtk" ≠ "") works_workingFiles
  exact ⟨m', rows, file, grid, hends, hfile, hgrid⟩

end TPC.System.Pipeline
