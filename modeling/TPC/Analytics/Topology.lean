import TPC.Analytics.FieldSpec
import TPC.Analytics.Lattice
import TPC.Vtk.Topology

/-!
# Generator and exporter agree on the topology

* `toPoint_polar`: a generated point survives the way through `(r, phi, z)`;
* `Resolved`: the steps are larger than what the exporter takes for equal;
* `latticeRow_spaced`, `exists_wide_row`: the rows that the disc leaves;
* `rowList_generated`, **`stores_generated`**: the generated coordinates are layers of rows;
* `ExportsGrid`, `AgreesOn`, **`exportsGrid`**: the exporter recovers exactly these and fills them
  with wedges.
-/

namespace TPC.Analytics

open Vtk Fold Segment
open Arith hiding max

/-! ## Points -/

/-- A point that is not next to the axis survives the way through `(r, phi, z)`. -/
theorem toPoint_polar {p : ℝ × ℝ × ℝ} (h : ¬ (0 < hypot p.1 p.2.1 ∧ hypot p.1 p.2.1 < (epsilon : ℝ))) :
    toPoint (polar p) = lift p.2.2 (p.1, p.2.1) := by
  obtain ⟨x, y, z⟩ := p
  have hr : hypot x y = ‖(⟨x, y⟩ : ℂ)‖ := by
    rw [hypot_real, Complex.norm_eq_sqrt_sq_add_sq]
  rw [toPoint, polar, lift]
  dsimp only at h ⊢
  by_cases hlt : hypot x y < (epsilon : ℝ)
  · have hzero : hypot x y = 0 := by
      refine le_antisymm (not_lt.mp fun hpos => h ⟨hpos, hlt⟩) ?_
      rw [hr]
      exact norm_nonneg _
    have hxy : (⟨x, y⟩ : ℂ) = 0 := norm_eq_zero.mp (hr ▸ hzero)
    have hx : x = 0 := congrArg Complex.re hxy
    have hy : y = 0 := congrArg Complex.im hxy
    rw [hzero, zero_mul, zero_mul, hx, hy]
  · rw [if_neg hlt, hr, atan2_real, cos_real, sin_real, Complex.norm_mul_cos_arg,
      Complex.norm_mul_sin_arg]

/-- Every step is larger than what the exporter takes for equal. -/
structure Resolved (g : Fin 3 → ℕ) (radius length : ℝ) : Prop where
  dims : ∀ i, 2 ≤ g i
  radius_pos : 0 < radius
  length_pos : 0 < length
  stepX : 64 * epsilon * max (max 1 radius) length < stepX g radius
  stepY : 64 * epsilon * max (max 1 radius) length < stepY g radius
  stepZ : 64 * epsilon * max (max 1 radius) length < stepZ g length
  area : 64 * epsilon < Analytics.stepX g radius * Analytics.stepY g radius

/-! ## Rows -/

section Rows

variable {g : Fin 3 → ℕ} {radius : ℝ}

theorem rowX_add (j k d : ℕ) : rowX g radius j (k + d) = rowX g radius j k + d * stepX g radius := by
  unfold rowX
  push_cast
  ring

theorem rowY_add (j d : ℕ) : rowY g radius (j + d) = rowY g radius j + d * stepY g radius := by
  unfold rowY
  push_cast
  ring

theorem add_le_rowX (hx : 0 ≤ stepX g radius) (j : ℕ) {k k' : ℕ} (h : k < k') :
    rowX g radius j k + stepX g radius ≤ rowX g radius j k' := by
  obtain ⟨d, rfl⟩ := Nat.exists_eq_add_of_lt h
  rw [Nat.add_assoc, rowX_add]
  push_cast
  have : 0 ≤ (d : ℝ) * stepX g radius := by positivity
  linarith

theorem add_le_rowY (hy : 0 ≤ stepY g radius) {j j' : ℕ} (h : j < j') :
    rowY g radius j + stepY g radius ≤ rowY g radius j' := by
  obtain ⟨d, rfl⟩ := Nat.exists_eq_add_of_lt h
  rw [Nat.add_assoc, rowY_add]
  push_cast
  have : 0 ≤ (d : ℝ) * stepY g radius := by positivity
  linarith

/-- The points of a row stay a step apart when the disc takes some of them. -/
theorem latticeRow_spaced (hx : 0 ≤ stepX g radius) (j cols : ℕ) :
    (latticeRow g radius j cols).Pairwise fun p q => p.1 + stepX g radius ≤ q.1 := by
  rw [latticeRow, List.pairwise_map]
  refine List.Pairwise.filter _ ?_
  rw [List.pairwise_map]
  exact List.pairwise_lt_range.imp fun h => add_le_rowX hx j h

theorem latticeRow_level {j cols : ℕ} {p : ℝ × ℝ} (hp : p ∈ latticeRow g radius j cols) :
    p.2 = rowY g radius j := by
  obtain ⟨k, -, hk, -⟩ := mem_latticeRow.mp hp
  rw [hk]

theorem latticeRow_bounded (hr : 0 ≤ radius) {j cols : ℕ} {p : ℝ × ℝ}
    (hp : p ∈ latticeRow g radius j cols) : |p.2| ≤ radius := by
  obtain ⟨k, -, -, h⟩ := mem_latticeRow.mp hp
  refine abs_le_of_sq_le_sq ?_ hr
  nlinarith [mul_self_nonneg p.1]

theorem stepY_le (hg₁ : 2 ≤ g 1) (hr : 0 < radius) : stepY g radius ≤ √3 / 2 * radius := by
  have h₁ : (1 : ℝ) ≤ ((g 1 - 1 : ℕ) : ℝ) := by exact_mod_cast (by omega : 1 ≤ g 1 - 1)
  have hdiv : radius / ((g 1 - 1 : ℕ) : ℝ) ≤ radius := div_le_self hr.le h₁
  have h₃ : (3.0 : ℝ) = 3 := by norm_num
  unfold stepY
  rw [sqrt_real, h₃]
  have := mul_le_mul_of_nonneg_right hdiv (Real.sqrt_nonneg 3)
  linarith

theorem stepX_le (hg₀ : 2 ≤ g 0) (hr : 0 < radius) : stepX g radius ≤ radius := by
  have h₁ : (1 : ℝ) ≤ ((g 0 - 1 : ℕ) : ℝ) := by exact_mod_cast (by omega : 1 ≤ g 0 - 1)
  exact div_le_self hr.le h₁

/-- Some odd row is in the middle of the disc. -/
theorem exists_middle_row (hg₁ : 2 ≤ g 1) (hr : 0 < radius) :
    ∃ i, |rowY g radius (2 * i + 1)| ≤ √3 / 2 * radius := by
  have hy := stepY_pos hg₁ hr
  have hle := stepY_le hg₁ hr
  -- the first odd row that is not too low
  have hex : ∃ i : ℕ, -(√3 / 2 * radius) ≤ rowY g radius (2 * i + 1) := by
    obtain ⟨i, hi⟩ := exists_nat_gt (radius / stepY g radius)
    rw [div_lt_iff₀ hy] at hi
    refine ⟨i, ?_⟩
    unfold rowY
    push_cast
    nlinarith
  classical
  refine ⟨Nat.find hex, abs_le.mpr ⟨Nat.find_spec hex, ?_⟩⟩
  cases h : Nat.find hex with
  | zero =>
    unfold rowY
    push_cast
    linarith
  | succ k =>
    have hlow := not_le.mp (Nat.find_min hex (by omega : k < Nat.find hex))
    have hstep : rowY g radius (2 * (k + 1) + 1) = rowY g radius (2 * k + 1) + 2 * stepY g radius := by
      rw [show 2 * (k + 1) + 1 = 2 * k + 1 + 2 by omega, rowY_add]
      norm_num
    rw [hstep]
    linarith

/-- Such a row has a point on either side of the axis. -/
theorem two_le_latticeRow (hg₀ : 2 ≤ g 0) (hr : 0 < radius) {j cols : ℕ} (hj : j % 2 ≠ 0)
    (hmiddle : |rowY g radius j| ≤ √3 / 2 * radius)
    (hc : ∀ k : ℕ, k < cols ↔ rowX g radius j k ≤ radius + stepX g radius * 0.5) :
    2 ≤ (latticeRow g radius j cols).length := by
  have hx := stepX_pos hg₀ hr
  have hle := stepX_le hg₀ hr
  obtain ⟨hright, hleft⟩ : rowX g radius j (g 0 - 1) = _ ∧ rowX g radius j (g 0 - 2) = _ :=
    rowX_odd hg₀ hj
  have hy : rowY g radius j * rowY g radius j ≤ 3 / 4 * (radius * radius) := by
    have h₃ : √3 * √3 = (3 : ℝ) := Real.mul_self_sqrt (by norm_num)
    calc rowY g radius j * rowY g radius j = |rowY g radius j| * |rowY g radius j| :=
          (abs_mul_abs_self _).symm
      _ ≤ √3 / 2 * radius * (√3 / 2 * radius) := mul_self_le_mul_self (abs_nonneg _) hmiddle
      _ = √3 * √3 / 4 * (radius * radius) := by ring
      _ = 3 / 4 * (radius * radius) := by rw [h₃]
  have hin : ∀ k x, rowX g radius j k = x → x * x = stepX g radius * stepX g radius / 4 →
      x ≤ radius → (x, rowY g radius j) ∈ latticeRow g radius j cols := by
    intro k x hk hxx hxr
    refine mem_latticeRow.mpr ⟨k, (hc k).mpr (by rw [hk]; linarith), by rw [hk], ?_⟩
    have := mul_self_le_mul_self hx.le hle
    dsimp only
    rw [hxx]
    linarith
  refine two_le_length (hin _ _ hright (by ring) (by linarith)) (hin _ _ hleft (by ring) (by linarith)) ?_
  intro he
  have := congrArg Prod.fst he
  dsimp only at this
  linarith

/-- The rows of a layer that have a point. -/
def nonemptyRows (rows : List (List (ℝ × ℝ))) : List (List (ℝ × ℝ)) :=
  rows.filter fun row => !row.isEmpty

theorem mem_nonemptyRows {rows : List (List (ℝ × ℝ))} {row : List (ℝ × ℝ)} :
    row ∈ nonemptyRows rows ↔ row ∈ rows ∧ row ≠ [] := by
  simp [nonemptyRows]

theorem flatten_nonemptyRows (rows : List (List (ℝ × ℝ))) :
    (nonemptyRows rows).flatten = rows.flatten := List.flatten_filter_not_isEmpty

section Layer

variable {n : ℕ} {cols : ℕ → ℕ}

/-- **The non-empty rows are apart from each other, and so are their points.** -/
theorem rowList_generated (hg₀ : 2 ≤ g 0) (hg₁ : 2 ≤ g 1) (hr : 0 < radius) (z : ℝ) :
    RowList (stepX g radius) (stepY g radius) radius
      ((nonemptyRows ((List.range n).map fun j => latticeRow g radius j (cols j))).map
        (List.map (lift z))) := by
  have hmem : ∀ row ∈ (nonemptyRows ((List.range n).map fun j => latticeRow g radius j (cols j))).map
      (List.map (lift z)), ∃ j, row = (latticeRow g radius j (cols j)).map (lift z) ∧ row ≠ [] := by
    intro row hrow
    obtain ⟨row', hrow', rfl⟩ := List.mem_map.mp hrow
    obtain ⟨hmem, hne⟩ := mem_nonemptyRows.mp hrow'
    obtain ⟨j, -, rfl⟩ := List.mem_map.mp hmem
    exact ⟨j, rfl, by simpa using hne⟩
  refine ⟨fun row hrow => ?_, fun row hrow p hp q hq => ?_, fun row hrow => ?_, ?_,
    fun row hrow p hp => ?_⟩
  · obtain ⟨j, -, hne⟩ := hmem row hrow
    exact hne
  · obtain ⟨j, rfl, -⟩ := hmem row hrow
    obtain ⟨p', hp', rfl⟩ := List.mem_map.mp hp
    obtain ⟨q', hq', rfl⟩ := List.mem_map.mp hq
    exact (latticeRow_level hp').trans (latticeRow_level hq').symm
  · obtain ⟨j, rfl, -⟩ := hmem row hrow
    rw [List.pairwise_map]
    exact latticeRow_spaced (stepX_pos hg₀ hr).le j (cols j)
  · rw [List.pairwise_map]
    refine List.Pairwise.filter _ ?_
    rw [List.pairwise_map]
    refine List.pairwise_lt_range.imp fun h p hp q hq => ?_
    obtain ⟨p', hp', rfl⟩ := List.mem_map.mp hp
    obtain ⟨q', hq', rfl⟩ := List.mem_map.mp hq
    rw [lift, lift, latticeRow_level hp', latticeRow_level hq']
    exact add_le_rowY (stepY_pos hg₁ hr).le h
  · obtain ⟨j, rfl, -⟩ := hmem row hrow
    obtain ⟨p', hp', rfl⟩ := List.mem_map.mp hp
    exact latticeRow_bounded hr.le hp'

/-- The row of the pole and a row in the middle are both there. -/
theorem exists_wide_row (hg₀ : 2 ≤ g 0) (hg₁ : 2 ≤ g 1) (hr : 0 < radius)
    (hn : ∀ j : ℕ, j < n ↔ rowY g radius j ≤ radius + stepY g radius * 0.5)
    (hc : ∀ j k : ℕ, k < cols j ↔ rowX g radius j k ≤ radius + stepX g radius * 0.5) :
    let rows := nonemptyRows ((List.range n).map fun j => latticeRow g radius j (cols j))
    2 ≤ rows.length ∧ ∃ row ∈ rows, 2 ≤ row.length := by
  have hy := stepY_pos hg₁ hr
  obtain ⟨i, hi⟩ := exists_middle_row hg₁ hr
  have hwide := two_le_latticeRow hg₀ hr (by omega) hi (hc (2 * i + 1))
  have hpole := pole_mem_latticeRow hg₀ hr (hc 0)
  have h₃ : √3 / 2 ≤ (1 : ℝ) := by
    rw [div_le_one (by norm_num)]
    exact Real.sqrt_le_iff.mpr ⟨by norm_num, by norm_num⟩
  have hmiddle : 2 * i + 1 < n := by
    rw [hn]
    have := (abs_le.mp hi).2
    nlinarith
  have hwide_mem : latticeRow g radius (2 * i + 1) (cols (2 * i + 1)) ∈
      nonemptyRows ((List.range n).map fun j => latticeRow g radius j (cols j)) := by
    refine mem_nonemptyRows.mpr ⟨List.mem_map.mpr ⟨_, List.mem_range.mpr hmiddle, rfl⟩, ?_⟩
    exact List.length_pos_iff.mp (by omega)
  have hpole_mem : latticeRow g radius 0 (cols 0) ∈
      nonemptyRows ((List.range n).map fun j => latticeRow g radius j (cols j)) := by
    refine mem_nonemptyRows.mpr ⟨List.mem_map.mpr ⟨0, List.mem_range.mpr (by omega), rfl⟩, ?_⟩
    exact List.ne_nil_of_mem hpole
  refine ⟨two_le_length hpole_mem hwide_mem fun he => ?_, _, hwide_mem, hwide⟩
  -- the two rows have different heights
  have hlevel := latticeRow_level (he ▸ hpole)
  have hlow := add_le_rowY hy.le (by omega : 0 < 2 * i + 1)
  rw [← hlevel, ← latticeRow_level hpole] at hlow
  linarith

end Layer

/-! ## Layers -/

section Layers

variable {length : ℝ}

/-- The heights of the layers. -/
noncomputable def heights (g : Fin 3 → ℕ) (length : ℝ) : List ℝ :=
  (List.range (g 2)).map (layerZ g length)

theorem length_heights (g : Fin 3 → ℕ) (length : ℝ) : (heights g length).length = g 2 := by
  rw [heights, List.length_map, List.length_range]

theorem abs_layerZ_le (hg₂ : 2 ≤ g 2) (hl : 0 < length) {iz : ℕ} (hi : iz < g 2) :
    |layerZ g length iz| ≤ length := by
  have h₁ : (0 : ℝ) < ((g 2 - 1 : ℕ) : ℝ) := by exact_mod_cast (by omega : 0 < g 2 - 1)
  have h₂ : (iz : ℝ) ≤ ((g 2 - 1 : ℕ) : ℝ) := by exact_mod_cast (by omega : iz ≤ g 2 - 1)
  have hstep : (iz : ℝ) * stepZ g length ≤ length := by
    unfold stepZ
    rw [mul_div_assoc', div_le_iff₀ h₁]
    nlinarith
  have hpos : 0 ≤ (iz : ℝ) * stepZ g length := by
    have : 0 ≤ stepZ g length := div_nonneg hl.le h₁.le
    positivity
  unfold layerZ
  rw [abs_le]
  constructor <;> linarith

theorem prism_generated {rows : List (List (ℝ × ℝ))} {points : List (ℝ × ℝ × ℝ)}
    (hpoints : points = (List.range (g 2)).flatMap fun iz =>
      rows.flatten.map fun p => (p.1, p.2, layerZ g length iz))
    (hnear : ∀ p ∈ points, ¬ (0 < hypot p.1 p.2.1 ∧ hypot p.1 p.2.1 < (epsilon : ℝ))) :
    (points.map polar).map toPoint = prism (heights g length) (nonemptyRows rows).flatten := by
  have hcongr : points.map (toPoint ∘ polar) = points.map fun p => lift p.2.2 (p.1, p.2.1) :=
    List.map_congr_left fun p hp => toPoint_polar (hnear p hp)
  rw [List.map_map, hcongr, hpoints, flatten_nonemptyRows, prism, heights, List.flatMap_map,
    List.map_flatMap]
  simp only [List.map_map]
  rfl

/-- **The coordinates of a generated grid are layers of rows.** -/
theorem stores_generated (h : Resolved g radius length) {n : ℕ} {cols : ℕ → ℕ}
    (hn : ∀ j : ℕ, j < n ↔ rowY g radius j ≤ radius + stepY g radius * 0.5)
    (hc : ∀ j k : ℕ, k < cols j ↔ rowX g radius j k ≤ radius + stepX g radius * 0.5)
    {rows : List (List (ℝ × ℝ))} {points : List (ℝ × ℝ × ℝ)}
    (hrows : rows = (List.range n).map fun j => latticeRow g radius j (cols j))
    (hpoints : points = (List.range (g 2)).flatMap fun iz =>
      rows.flatten.map fun p => (p.1, p.2, layerZ g length iz))
    (hsize : points.length * 3 ≤ vectorMax)
    (hnear : ∀ p ∈ points, ¬ (0 < hypot p.1 p.2.1 ∧ hypot p.1 p.2.1 < (epsilon : ℝ))) :
    Stores length (stepZ g length) (stepX g radius) (stepY g radius) radius (heights g length)
      (nonemptyRows rows) (points.map polar) := by
  have hwide := exists_wide_row (h.dims 0) (h.dims 1) h.radius_pos hn hc
  have he := epsilon_pos
  have hle : ∀ s, 64 * epsilon * max (max 1 radius) length < s → ∀ a ≤ max (max 1 radius) length,
      64 * epsilon * a < s := fun s hs a ha =>
    lt_of_le_of_lt (mul_le_mul_of_nonneg_left ha (by positivity)) hs
  constructor
  case points => exact prism_generated hpoints hnear
  case size => rwa [List.length_map]
  case layers =>
    rw [length_heights]
    exact h.dims 2
  case height =>
    intro z hz
    obtain ⟨iz, hiz, rfl⟩ := List.mem_map.mp hz
    exact abs_layerZ_le (h.dims 2) h.length_pos (List.mem_range.mp hiz)
  case gap =>
    intro z₀ z₁ h₀ h₁
    have hd := h.dims 2
    rw [heights, List.getElem?_map, List.getElem?_range (by omega)] at h₀ h₁
    cases h₀
    cases h₁
    refine le_trans (le_of_eq ?_) (le_abs_self _)
    unfold layerZ
    push_cast
    ring
  case sz_large => exact hle _ h.stepZ _ (max_le_max (le_max_left _ _) le_rfl)
  case rowList =>
    intro z
    rw [hrows]
    exact rowList_generated (h.dims 0) (h.dims 1) h.radius_pos z
  case sx_pos => exact stepX_pos (h.dims 0) h.radius_pos
  case sy_large => exact hle _ h.stepY _ (le_max_left _ _)
  case area_large => exact h.area
  case two_rows =>
    rw [hrows]
    exact hwide.1
  case two_points =>
    rw [hrows]
    exact hwide.2

end Layers

end Rows

/-! ## The exported grid -/

/-- What the exporter makes of a coordinate buffer with layers of the given rows, whatever field of
the same size comes with it. -/
structure ExportsGrid (layers : ℕ) (rows : List (List (ℝ × ℝ))) (coordinates : List ℝ) : Prop where
  /-- It recovers the layers and the rows, -/
  recovers : recoveredTopology coordinates = .ok (layers, ranges 0 rows)
  /-- accepts the buffer, and writes a wedge for every step in a row, in every layer but the last. -/
  exports : ∀ field : List ℝ, field.length = coordinates.length → ∀ path ≠ "",
    ∃ file, buildFile field coordinates path = .ok file ∧
      file.cells.length = (layers - 1) * (steps rows).sum ∧ file.cellCount = file.cells.length ∧
      ∀ fs : FileSystem, fs.Works path → export3dFieldToVtk fs field coordinates path = .ok file
  /-- There is at least one. -/
  nonempty : 1 ≤ (layers - 1) * (steps rows).sum

theorem exportsGrid_of_stores {H sz sx sy R : ℝ} {zs : List ℝ} {rows : List (List (ℝ × ℝ))}
    {cs : List (ℝ × ℝ × ℝ)} (h : Stores H sz sx sy R zs rows cs) :
    ExportsGrid zs.length rows (flat cs) where
  recovers := h.recoveredTopology_eq
  exports field hfield path hpath := by
    obtain ⟨file, hfile, hcount, hcells⟩ := h.exists_buildFile hfield hpath
    exact ⟨file, hfile, hcells.trans hcount, hcells.symm,
      fun fs hfs => export3dFieldToVtk_of_works hfs hfile⟩
  nonempty := by
    have hlayers := h.layers
    exact Nat.mul_pos (by omega) h.steps_pos

open AnalyticsManager Prog in
/-- The generator visits these points, row by row. It stores them unless they do not fit into a
vector; and from what it has stored the exporter recovers the layers and the non-empty rows. -/
structure AgreesOn (fuel : ℕ) (g : Fin 3 → ℕ) (radius length : ℝ) (rows : List (List (ℝ × ℝ)))
    (points : List (ℝ × ℝ × ℝ)) : Prop where
  layerRows : layerRows fuel g radius = some rows
  gridPoints : gridPoints fuel g radius length = some points
  returns : points.length * 3 ≤ vectorMax → ∀ (m : AnalyticsManager ℝ) (fd : FieldCollection ℝ),
    ∃ m', Returns (calculateGridKernel fuel g radius length) (m.rewriting (some (stored fd [] []))) ()
      m'
  exports : (∀ p ∈ points, ¬ (0 < hypot p.1 p.2.1 ∧ hypot p.1 p.2.1 < (epsilon : ℝ))) →
    ∀ (m : AnalyticsManager ℝ) (fd : FieldCollection ℝ) (m' : AnalyticsManager ℝ),
      Returns (calculateGridKernel fuel g radius length) (m.rewriting (some (stored fd [] []))) () m' →
        ∃ fd', m'.fieldData = some fd' ∧ ExportsGrid (g 2) (nonemptyRows rows) fd'.coordinates

open AnalyticsManager Prog in
theorem returns_calculateGridKernel {fuel : ℕ} {g : Fin 3 → ℕ} {radius depth : ℝ} {points : List (ℝ × ℝ × ℝ)}
    (hg : ∀ i, 2 ≤ g i) (hr : 0 < radius) (hd : 0 < depth) (hgrid : gridPoints fuel g radius depth = some points)
    (hsize : points.length * 3 ≤ vectorMax) (m : AnalyticsManager ℝ) (fd : FieldCollection ℝ) :
    ∃ m', Returns (calculateGridKernel fuel g radius depth) (m.rewriting (some (stored fd [] []))) () m' := by
  have hpos : ¬ (radius ≤ 0 ∨ depth ≤ 0) := not_or.mpr ⟨not_le.mpr hr, not_le.mpr hd⟩
  have hgranted : Granted (fun _ _ => True) (calculateGridKernel fuel g radius depth)
      (m.rewriting (some (stored fd [] []))) := granted_calculateGridKernel hg hpos hgrid hsize trivial
  obtain ⟨⟨⟩, m', hret, -⟩ := hgranted.returns
  exact ⟨m', hret⟩

open AnalyticsManager Prog in
/-- **Generator and exporter agree on the topology**, with enough fuel for the loops of the
generator. -/
theorem exportsGrid {g : Fin 3 → ℕ} {radius length : ℝ} (h : Resolved g radius length) :
    ∃ fuel₀, ∀ fuel ≥ fuel₀, ∃ rows points, AgreesOn fuel g radius length rows points := by
  obtain ⟨fuel₀, hfuel⟩ := exists_enoughFuel (h.dims 0) (h.dims 1) h.radius_pos
  refine ⟨fuel₀, fun fuel hf => ?_⟩
  obtain ⟨n, cols, hn, hc, hrows⟩ :=
    layerRows_real (h.dims 0) (h.dims 1) h.radius_pos (hfuel fuel hf)
  obtain ⟨rows, hrows'⟩ : ∃ rows, rows = (List.range n).map fun j => latticeRow g radius j (cols j) :=
    ⟨_, rfl⟩
  obtain ⟨points, hpoints⟩ : ∃ points, points = (List.range (g 2)).flatMap fun iz =>
      rows.flatten.map fun p => (p.1, p.2, layerZ g length iz) := ⟨_, rfl⟩
  rw [← hrows'] at hrows
  have hgrid : gridPoints fuel g radius length = some points :=
    gridPoints_eq_some.mpr ⟨rows, hrows, hpoints⟩
  refine ⟨rows, points, hrows, hgrid, fun hsize m fd => ?_, fun hnear m fd m' hret => ?_⟩
  · exact returns_calculateGridKernel h.dims h.radius_pos h.length_pos hgrid hsize m fd
  · have hwp : wp (fun _ _ => True) (fun _ m' => ∃ fd', m'.fieldData = some fd' ∧
        ExportsGrid (g 2) (nonemptyRows rows) fd'.coordinates) (fun _ _ => True)
        (calculateGridKernel fuel g radius length) (m.rewriting (some (stored fd [] []))) := by
      refine wp_calculateGridKernel (fun _ _ => trivial) (fun _ _ _ => trivial) fuel g radius length ?_
      intro points' _ _ _ hp hsize
      rw [hgrid] at hp
      cases hp
      have hstores := stores_generated h hn hc hrows' hpoints hsize hnear
      refine ⟨_, rfl, ?_⟩
      rw [← length_heights g length]
      exact exportsGrid_of_stores hstores
    exact wp_returns hret hwp

theorem resolved_unit : Resolved (fun _ => 2) 1 1 := by
  have he : 64 * (epsilon : ℝ) < 1 / 2 := by rw [epsilon_real]; norm_num
  have hx : stepX (fun _ => 2) (1 : ℝ) = 1 := by norm_num [stepX]
  have hy : (1 : ℝ) / 2 ≤ stepY (fun _ => 2) (1 : ℝ) := by
    have h₃ : (1 : ℝ) ≤ √3.0 := Real.one_le_sqrt.mpr (by norm_num)
    norm_num [stepY, sqrt_real] at h₃ ⊢
  have hz : stepZ (fun _ => 2) (1 : ℝ) = 1 := by norm_num [stepZ]
  refine ⟨fun _ => le_rfl, one_pos, one_pos, ?_, ?_, ?_, ?_⟩
  · rw [hx, max_self, max_self]
    linarith
  · rw [max_self, max_self]
    linarith
  · rw [hz, max_self, max_self]
    linarith
  · rw [hx, one_mul]
    exact he.trans_le hy

/-- `exportsGrid` for that grid. -/
theorem exportsGrid_unit : ∃ fuel₀, ∀ fuel ≥ fuel₀, ∃ rows points,
    AgreesOn fuel (fun _ => 2) 1 1 rows points := exportsGrid resolved_unit

end TPC.Analytics
