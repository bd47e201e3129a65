import TPC.Analytics.Reconstruction

/-!
# What a slice depicts

In exact arithmetic: the point that a pixel stands for, the mask and the field of an evaluated slice.

* `FieldSlice.point`, `InCylinder`, `FieldSlice.Holds`: what a slice is about;
* `pixelPosition_eq`: the loops compute the points; `inCylinder_iff`, `inDisc_of_upright`: which are inside;
* `pixel_cases`, `visit_spec`: the buffers at one pixel, and what its visit does;
* `exists_slice`: which slices there are;
* `Depicts`, **`evaluateFieldSlice_depicts`**: the slice as a whole;
* **`not_forall_holds`**: a slice so near to the axis that the angle of its points is lost.
-/

namespace TPC.Analytics

open Fold AnalyticsManager
open Arith hiding max

/-- The closed cylinder. -/
def InCylinder (radius zLength : ℝ) (p : ℝ × ℝ × ℝ) : Prop :=
  p.1 ^ 2 + p.2.1 ^ 2 ≤ radius ^ 2 ∧ |p.2.2| ≤ zLength / 2

namespace FieldSlice

/-- The point that a pixel stands for: columns go to the right, rows go down. -/
noncomputable def point (slice : FieldSlice ℝ) (row column : ℕ) : ℝ × ℝ × ℝ :=
  slicePosition slice.direction slice.coordinate
    (AffineMap.lineMap slice.horizontalBounds.1 slice.horizontalBounds.2
      ((column : ℝ) / ((slice.grid 0 - 1 : ℕ) : ℝ)))
    (AffineMap.lineMap slice.verticalBounds.2 slice.verticalBounds.1
      ((row : ℝ) / ((slice.grid 1 - 1 : ℕ) : ℝ)))

/-- The three field entries of a pixel. -/
def Holds (slice : FieldSlice ℝ) (pixel : ℕ) (v : ℝ × ℝ × ℝ) : Prop :=
  slice.field[3 * pixel]? = some v.1 ∧ slice.field[3 * pixel + 1]? = some v.2.1 ∧
    slice.field[3 * pixel + 2]? = some v.2.2

theorem Holds.unique {slice : FieldSlice ℝ} {pixel : ℕ} {v w : ℝ × ℝ × ℝ} (hv : slice.Holds pixel v)
    (hw : slice.Holds pixel w) : v = w := by
  ext
  · exact Option.some.inj (hv.1.symm.trans hw.1)
  · exact Option.some.inj (hv.2.1.symm.trans hw.2.1)
  · exact Option.some.inj (hv.2.2.symm.trans hw.2.2)

end FieldSlice

namespace AnalyticsManager

variable {m : AnalyticsManager ℝ} {direction : SliceDirection} {coordinate radius zLength : ℝ} {grid : Fin 2 → ℕ}
  {stopRequested : ℕ → Bool} {slice : FieldSlice ℝ} {vs : List (Option (ℝ × ℝ × ℝ))}

/-! ## Geometry -/

theorem pixelU_real (bounds : ℝ × ℝ) (width column : ℕ) :
    pixelU bounds width column = AffineMap.lineMap bounds.1 bounds.2 ((column : ℝ) / ((width - 1 : ℕ) : ℝ)) := by
  rw [pixelU, AffineMap.lineMap_apply, vsub_eq_sub, vadd_eq_add, smul_eq_mul]
  ring

theorem pixelV_real (bounds : ℝ × ℝ) (height row : ℕ) :
    pixelV bounds height row = AffineMap.lineMap bounds.2 bounds.1 ((row : ℝ) / ((height - 1 : ℕ) : ℝ)) := by
  rw [pixelV, AffineMap.lineMap_apply, vsub_eq_sub, vadd_eq_add, smul_eq_mul]
  ring

/-- **The loops compute the points of the pixels.** -/
theorem pixelPosition_eq (row column : ℕ) :
    pixelPosition direction coordinate grid (sliceBounds direction coordinate radius zLength) row column =
      (image direction coordinate grid radius zLength vs).point row column := by
  rw [pixelPosition, pixelU_real, pixelV_real]
  rfl

theorem div_mem_Icc {i n : ℕ} (hi : i < n) : (i : ℝ) / ((n - 1 : ℕ) : ℝ) ∈ Set.Icc (0 : ℝ) 1 := by
  refine ⟨by positivity, div_le_one_of_le₀ ?_ (Nat.cast_nonneg _)⟩
  exact_mod_cast Nat.le_sub_one_of_lt hi

theorem abs_lineMap_le {a t : ℝ} (ht : t ∈ Set.Icc (0 : ℝ) 1) : |AffineMap.lineMap (-a) a t| ≤ |a| := by
  have hfactor : AffineMap.lineMap (-a) a t = (2 * t - 1) * a := by
    rw [AffineMap.lineMap_apply, vsub_eq_sub, vadd_eq_add, smul_eq_mul]
    ring
  rw [hfactor, abs_mul]
  refine mul_le_of_le_one_left (abs_nonneg a) (abs_le.mpr ⟨?_, ?_⟩)
  · linarith [ht.1]
  · linarith [ht.2]

/-- The in-plane coordinates stay within the bounds. -/
theorem abs_pixelU_le {a : ℝ} {width column : ℕ} (hc : column < width) : |pixelU (-a, a) width column| ≤ |a| := by
  rw [pixelU_real]
  exact abs_lineMap_le (div_mem_Icc hc)

@[inherit_doc abs_pixelU_le]
theorem abs_pixelV_le {a : ℝ} {height row : ℕ} (hr : row < height) : |pixelV (-a, a) height row| ≤ |a| := by
  have h := abs_lineMap_le (a := -a) (div_mem_Icc hr)
  rwa [neg_neg, abs_neg, ← pixelV_real (-a, a)] at h

theorem sliceBounds_upright (hd : direction ≠ .z) : sliceBounds direction coordinate radius zLength =
    ((-√(radius ^ 2 - coordinate ^ 2), √(radius ^ 2 - coordinate ^ 2)), (-(zLength / 2), zLength / 2)) := by
  have hlimit : sqrt (Arith.max 0 (radius * radius - coordinate * coordinate)) = √(radius ^ 2 - coordinate ^ 2) := by
    rw [sqrt_real, max_real, ← sq, ← sq]
    rcases le_total 0 (radius ^ 2 - coordinate ^ 2) with h | h
    · rw [max_eq_right h]
    · rw [max_eq_left h, Real.sqrt_zero, Real.sqrt_eq_zero_of_nonpos h]
  have hhalf : zLength * 0.5 = zLength / 2 := by ring
  cases direction with
  | z => exact absurd rfl hd
  | x | y => simp only [sliceBounds, hlimit, hhalf]

variable {row column : ℕ} {p : ℝ × ℝ × ℝ}

/-- **Along the axis every pixel is in the disc.** -/
theorem inDisc_of_upright (ha : m.AcceptsSlice direction coordinate grid radius zLength) (hd : direction ≠ .z)
    (hc : column < grid 0)
    (hp : pixelPosition direction coordinate grid (sliceBounds direction coordinate radius zLength) row column = p) :
    p.1 ^ 2 + p.2.1 ^ 2 ≤ radius ^ 2 := by
  have hcoordinate : |coordinate| ≤ radius := not_lt.mp fun h => ha.inside (.inr ⟨hd, h⟩)
  have hnonneg : 0 ≤ radius ^ 2 - coordinate ^ 2 :=
    sub_nonneg.mpr (sq_le_sq.mpr (hcoordinate.trans (le_abs_self radius)))
  have hu := abs_pixelU_le (a := √(radius ^ 2 - coordinate ^ 2)) hc
  have hsq := sq_le_sq.mpr hu
  rw [Real.sq_sqrt hnonneg] at hsq
  rw [pixelPosition, sliceBounds_upright hd] at hp
  cases direction with
  | z => exact absurd rfl hd
  | x | y =>
    rw [← hp, slicePosition]
    linarith

theorem abs_height_le (ha : m.AcceptsSlice direction coordinate grid radius zLength) (hr : row < grid 1)
    (hp : pixelPosition direction coordinate grid (sliceBounds direction coordinate radius zLength) row column = p) :
    |p.2.2| ≤ zLength / 2 := by
  have hv := abs_pixelV_le (a := zLength / 2) hr
  rw [abs_of_pos (half_pos (not_le.mp (not_or.mp ha.positive).2))] at hv
  rw [← hp, pixelPosition]
  cases hd : direction with
  | z =>
    have hin : |coordinate| ≤ zLength * 0.5 := not_lt.mp fun h => ha.inside (.inl ⟨hd, h⟩)
    refine hin.trans_eq ?_
    ring
  | x | y =>
    rw [sliceBounds_upright (by decide)]
    exact hv

theorem inCylinder_iff (ha : m.AcceptsSlice direction coordinate grid radius zLength) (hr : row < grid 1)
    (hp : pixelPosition direction coordinate grid (sliceBounds direction coordinate radius zLength) row column = p) :
    InCylinder radius zLength p ↔ ¬ radius * radius < p.1 * p.1 + p.2.1 * p.2.1 := by
  rw [not_lt, InCylinder, sq, sq, sq]
  exact and_iff_left (abs_height_le ha hr hp)

/-! ## One pixel -/

theorem entries_image {i : ℕ} {v : Option (ℝ × ℝ × ℝ)} (hv : vs[i]? = some v) :
    (image direction coordinate grid radius zLength vs).Holds i (pixelEntry v).1 ∧
      (image direction coordinate grid radius zLength vs).valid[i]? = some (pixelEntry v).2 := by
  have hfield : ((vs.map pixelEntry).map Prod.fst)[i]? = some (pixelEntry v).1 := by
    rw [List.getElem?_map, List.getElem?_map, hv]
    rfl
  obtain ⟨hx, hy, hz⟩ := flat_getElem? ((vs.map pixelEntry).map Prod.fst) i
  rw [hfield, Nat.mul_comm] at hx hy hz
  refine ⟨⟨hx, hy, hz⟩, ?_⟩
  rw [image, pixelBuffers, List.getElem?_map, List.getElem?_map, hv]
  rfl

/-- **One pixel**: it is in the cylinder and holds the vector of its point, or blank. -/
theorem pixel_cases (h : m.evaluateFieldSlice direction coordinate grid radius zLength stopRequested = .ok slice)
    (hr : row < grid 1) (hc : column < grid 0) (hp : slice.point row column = p) :
    (slice.valid[row * grid 0 + column]? = some 1 ∧ InCylinder radius zLength p ∧
      ∃ v, slice.Holds (row * grid 0 + column) v ∧ m.vectorAt (slicePhi p.1 p.2.1) p = .ok v) ∨
    (slice.valid[row * grid 0 + column]? = some 0 ∧ ¬ InCylinder radius zLength p ∧
      slice.Holds (row * grid 0 + column) (0, 0, 0)) := by
  obtain ⟨ha, -, vs, hvs, rfl⟩ := evaluateFieldSlice_eq_ok.mp h
  have hpos := (pixelPosition_eq row column).trans hp
  obtain ⟨v, hv, hvalue⟩ := exists_pixel hvs hr hc
  obtain ⟨hholds, hvalid⟩ := entries_image hv
  rw [hpos] at hvalue
  rcases pixelValue_eq_ok.mp hvalue with ⟨hout, rfl⟩ | ⟨hin, w, hw, rfl⟩
  · exact .inr ⟨hvalid, fun hc => (inCylinder_iff ha hr hpos).mp hc hout, hholds⟩
  · exact .inl ⟨hvalid, (inCylinder_iff ha hr hpos).mpr hin, w, hholds, hw⟩

theorem valid_of_upright (h : m.evaluateFieldSlice direction coordinate grid radius zLength stopRequested = .ok slice)
    (hd : direction ≠ .z) (hr : row < grid 1) (hc : column < grid 0) :
    slice.valid[row * grid 0 + column]? = some 1 := by
  rcases pixel_cases h hr hc rfl with ⟨hv, -, -⟩ | ⟨-, hout, -⟩
  · exact hv
  · obtain ⟨ha, -, vs, -, rfl⟩ := evaluateFieldSlice_eq_ok.mp h
    have hpos : pixelPosition direction coordinate grid (sliceBounds direction coordinate radius zLength) row column =
        (image direction coordinate grid radius zLength vs).point row column := pixelPosition_eq row column
    exact absurd ⟨inDisc_of_upright ha hd hc hpos, abs_height_le ha hr hpos⟩ hout

/-! ## The slice -/

/-- What the result of `evaluate_field_slice` is. -/
structure Depicts (m : AnalyticsManager ℝ) (direction : SliceDirection) (coordinate : ℝ) (grid : Fin 2 → ℕ)
    (radius zLength : ℝ) (slice : FieldSlice ℝ) : Prop where
  request : slice.direction = direction ∧ slice.coordinate = coordinate ∧ slice.grid = grid
  sizes : slice.valid.length = grid 0 * grid 1 ∧ slice.field.length = 3 * (grid 0 * grid 1)
  bounds_z : direction = .z → slice.horizontalBounds = (-radius, radius) ∧ slice.verticalBounds = (-radius, radius)
  bounds_upright : direction ≠ .z →
    slice.horizontalBounds = (-√(radius ^ 2 - coordinate ^ 2), √(radius ^ 2 - coordinate ^ 2)) ∧
    slice.verticalBounds = (-(zLength / 2), zLength / 2)
  first : slice.point 0 0 =
    slicePosition direction coordinate slice.horizontalBounds.1 slice.verticalBounds.2
  last : slice.point (grid 1 - 1) (grid 0 - 1) =
    slicePosition direction coordinate slice.horizontalBounds.2 slice.verticalBounds.1
  mask : ∀ row < grid 1, ∀ column < grid 0,
    (slice.valid[row * grid 0 + column]? = some 1 ↔ InCylinder radius zLength (slice.point row column)) ∧
    (slice.valid[row * grid 0 + column]? = some 0 ↔ ¬ InCylinder radius zLength (slice.point row column))
  upright : direction ≠ .z → ∀ row < grid 1, ∀ column < grid 0, slice.valid[row * grid 0 + column]? = some 1
  blank : ∀ row < grid 1, ∀ column < grid 0, slice.valid[row * grid 0 + column]? = some 0 →
    slice.Holds (row * grid 0 + column) (0, 0, 0)
  /-- Points within `epsilon` of the axis are evaluated at angle 0. -/
  field : ∀ row < grid 1, ∀ column < grid 0, slice.valid[row * grid 0 + column]? = some 1 →
    ∃ p v, slice.point row column = p ∧ slice.Holds (row * grid 0 + column) v ∧
      (hypot p.1 p.2.1 = 0 ∨ epsilon < hypot p.1 p.2.1 → m.vectorAt (axisAngle p) p = .ok v) ∧
      (hypot p.1 p.2.1 ≤ epsilon → m.vectorAt 0 p = .ok v)
  /-- The loops go through the pixels, each once. -/
  visits : ∀ stopRequested : ℕ → Bool, (∀ row < grid 1, stopRequested row = false) → ∀ buffers,
    (List.range (grid 1)).foldlM (m.sliceRow direction coordinate radius grid
        (slice.horizontalBounds, slice.verticalBounds) stopRequested) buffers =
      (List.range (grid 0 * grid 1)).foldlM (m.visit direction coordinate radius grid
        (slice.horizontalBounds, slice.verticalBounds)) buffers
  /-- A valid pixel is written when it is visited, and no other one is. -/
  writes : ∀ i < grid 0 * grid 1, ∀ L : List ((ℝ × ℝ × ℝ) × ℕ), L.length = grid 0 * grid 1 →
    ∃ L', m.visit direction coordinate radius grid (slice.horizontalBounds, slice.verticalBounds)
        (pixelBuffers L) i = .ok (pixelBuffers L') ∧ L'.length = L.length ∧ (∀ j, j ≠ i → L'[j]? = L[j]?) ∧
      (slice.valid[i]? = some 1 → ∃ v, slice.Holds i v ∧ L'[i]? = some (v, 1)) ∧
      (slice.valid[i]? = some 0 → L' = L)

theorem slicePhi_of_le (h : hypot p.1 p.2.1 ≤ epsilon) : slicePhi p.1 p.2.1 = 0 := if_pos h

theorem point_corners (hg : ∀ i, 2 ≤ slice.grid i) :
    slice.point 0 0 = slicePosition slice.direction slice.coordinate slice.horizontalBounds.1
      slice.verticalBounds.2 ∧
    slice.point (slice.grid 1 - 1) (slice.grid 0 - 1) = slicePosition slice.direction slice.coordinate
      slice.horizontalBounds.2 slice.verticalBounds.1 := by
  have hne : ∀ i, ((slice.grid i - 1 : ℕ) : ℝ) ≠ 0 := by
    intro i
    have := hg i
    exact_mod_cast (by omega : slice.grid i - 1 ≠ 0)
  constructor
  · rw [FieldSlice.point, Nat.cast_zero, zero_div, zero_div, AffineMap.lineMap_apply_zero,
      AffineMap.lineMap_apply_zero]
  · rw [FieldSlice.point, div_self (hne 0), div_self (hne 1), AffineMap.lineMap_apply_one,
      AffineMap.lineMap_apply_one]

/-- **A visit** writes the pixel that it visits, if this is valid. -/
theorem visit_spec (h : m.evaluateFieldSlice direction coordinate grid radius zLength stopRequested = .ok slice)
    {i : ℕ} (hi : i < grid 0 * grid 1) {L : List ((ℝ × ℝ × ℝ) × ℕ)} (hL : L.length = grid 0 * grid 1) :
    ∃ L', m.visit direction coordinate radius grid (slice.horizontalBounds, slice.verticalBounds)
        (pixelBuffers L) i = .ok (pixelBuffers L') ∧ L'.length = L.length ∧ (∀ j, j ≠ i → L'[j]? = L[j]?) ∧
      (slice.valid[i]? = some 1 → ∃ v, slice.Holds i v ∧ L'[i]? = some (v, 1)) ∧
      (slice.valid[i]? = some 0 → L' = L) := by
  obtain ⟨ha, -, vs, hvs, rfl⟩ := evaluateFieldSlice_eq_ok.mp h
  have hlen := hvs.length_eq
  rw [List.length_range] at hlen
  obtain ⟨v, hv⟩ : ∃ v, vs[i]? = some v := ⟨_, List.getElem?_eq_getElem (hlen ▸ hi)⟩
  have himage := forall₂_getElem? hvs (List.getElem?_range hi) hv
  obtain ⟨hholds, hvalid⟩ := entries_image hv
  refine ⟨put L i (v.map (·, 1)), ?_, length_put L i _, fun j hj => getElem?_put_ne L hj _, ?_, ?_⟩
  · rw [visit_eq (ha.size.trans vectorMax_le_sizeMax) hL hi]
    show m.imageAt direction coordinate radius grid (sliceBounds direction coordinate radius zLength) i >>= _ = _
    rw [himage, ok_bind]
  · intro h₁
    rw [hvalid] at h₁
    cases v with
    | none => cases h₁
    | some w => exact ⟨w, hholds, List.getElem?_set_self (hL ▸ hi)⟩
  · intro h₀
    rw [hvalid] at h₀
    cases v with
    | none => rfl
    | some w => cases h₀

/-- A slice that is accepted is evaluated, if the mode sums exist. -/
theorem exists_slice (ha : m.AcceptsSlice direction coordinate grid radius zLength)
    (hsum : ∀ c, ∃ b, m.modeSumAt c = .ok b) :
    ∃ slice, m.evaluateFieldSlice direction coordinate grid radius zLength (fun _ => false) = .ok slice := by
  have hall : ∀ i ∈ List.range (grid 0 * grid 1), ∃ v, m.imageAt direction coordinate radius grid
      (sliceBounds direction coordinate radius zLength) i = .ok v := by
    intro i _
    cases hv : m.imageAt direction coordinate radius grid (sliceBounds direction coordinate radius zLength) i with
    | ok v => exact ⟨v, rfl⟩
    | error e =>
      obtain ⟨c, hc⟩ := pixelValue_eq_error hv
      obtain ⟨b, hb⟩ := hsum c
      cases hc.symm.trans hb
  obtain ⟨vs, hvs⟩ := exists_mapM_eq_ok.mpr hall
  exact ⟨_, evaluateFieldSlice_eq_ok.mpr ⟨ha, fun _ _ => rfl, vs, mapM_eq_ok.mp hvs, rfl⟩⟩

theorem acceptsSlice_fitted {c : ℝ} (hr : |c| ≤ radius) (hpos : 0 < radius) :
    (fitted none false 1).AcceptsSlice .y c ![2, 2] radius 1 := by
  refine ⟨by decide, ?_, ?_, not_coefficientsMissing_fitted none false 1, by decide⟩
  · rintro (h | h)
    · linarith
    · norm_num at h
  · rintro (⟨h, -⟩ | ⟨-, h⟩)
    · cases h
    · exact absurd hr (not_le.mpr h)

/-- **What an evaluated slice depicts.** -/
theorem evaluateFieldSlice_depicts
    (h : m.evaluateFieldSlice direction coordinate grid radius zLength stopRequested = .ok slice) :
    Depicts m direction coordinate grid radius zLength slice := by
  have hone : (some 1 : Option ℕ) ≠ some 0 := by decide
  obtain ⟨ha, -, vs, hvs, himage⟩ := evaluateFieldSlice_eq_ok.mp h
  have hlen := hvs.length_eq
  rw [List.length_range] at hlen
  have hgrid : slice.grid = grid := by rw [himage, image]
  have hdims : ∀ i, 2 ≤ slice.grid i := hgrid ▸ ha.dims
  have hcorners := point_corners hdims
  have hrequest : slice.direction = direction ∧ slice.coordinate = coordinate ∧ slice.grid = grid := by
    rw [himage]
    exact ⟨rfl, rfl, rfl⟩
  obtain ⟨hdirection, hcoordinate, -⟩ := hrequest
  rw [hdirection, hcoordinate, hgrid] at hcorners
  refine ⟨⟨hdirection, hcoordinate, hgrid⟩, ?_, ?_, ?_, hcorners.1, hcorners.2, ?_, ?_, ?_, ?_,
    fun stopRequested' hstop buffers => foldlM_sliceRow hstop buffers, fun i hi L hL => visit_spec h hi hL⟩
  · rw [himage, image, pixelBuffers]
    constructor
    · rw [List.length_map, List.length_map, hlen]
    · rw [length_flat, List.length_map, List.length_map, hlen, Nat.mul_comm]
  · rintro rfl
    rw [himage]
    exact ⟨rfl, rfl⟩
  · intro hd
    rw [himage]
    exact ⟨congrArg Prod.fst (sliceBounds_upright hd), congrArg Prod.snd (sliceBounds_upright hd)⟩
  · intro row hr column hc
    rcases pixel_cases h hr hc rfl with ⟨hv, hin, -⟩ | ⟨hv, hout, -⟩
    · rw [hv]
      exact ⟨iff_of_true rfl hin, iff_of_false hone (not_not.mpr hin)⟩
    · rw [hv]
      exact ⟨iff_of_false hone.symm hout, iff_of_true rfl hout⟩
  · exact fun hd row hr column hc => valid_of_upright h hd hr hc
  · intro row hr column hc h₀
    rcases pixel_cases h hr hc rfl with ⟨hv, -, -⟩ | ⟨-, -, hholds⟩
    · exact absurd (hv.symm.trans h₀) hone
    · exact hholds
  · intro row hr column hc h₁
    rcases pixel_cases h hr hc rfl with ⟨-, -, v, hholds, hvec⟩ | ⟨hv, -, -⟩
    · refine ⟨_, v, rfl, hholds, fun hp => ?_, fun hp => ?_⟩
      · rwa [(angle_eq hp).1] at hvec
      · rwa [slicePhi_of_le hp] at hvec
    · exact absurd (hv.symm.trans h₁) hone.symm

theorem acceptsSlice_middle : (fitted none false 1).AcceptsSlice .z 0 ![3, 3] 1 1 := by
  refine ⟨by decide, by norm_num, ?_, not_coefficientsMissing_fitted none false 1, by decide⟩
  rintro (⟨-, h⟩ | ⟨h, -⟩)
  · norm_num [abs_real] at h
  · exact h rfl

/-- The middle slice of the unit cylinder: the corners are outside. -/
theorem evaluateFieldSlice_depicts_middle : ∃ slice,
    (fitted none false 1).evaluateFieldSlice .z 0 ![3, 3] 1 1 (fun _ => false) = .ok slice ∧
      Depicts (fitted none false 1) .z 0 ![3, 3] 1 1 slice ∧
      slice.valid[0]? = some 0 ∧ slice.valid[4]? = some 1 := by
  obtain ⟨slice, h⟩ := exists_slice acceptsSlice_middle fun c => ⟨_, modeSumAt_fitted none false 1 c⟩
  have hd := evaluateFieldSlice_depicts h
  obtain ⟨hdirection, hcoordinate, hgrid⟩ := hd.request
  obtain ⟨hhorizontal, hvertical⟩ := hd.bounds_z rfl
  have hcorner : slice.point 0 0 = (-1, 1, 0) := by
    rw [hd.first, hhorizontal, hvertical]
    rfl
  have hcentre : slice.point 1 1 = (0, 0, 0) := by
    rw [FieldSlice.point, hdirection, hcoordinate, hgrid, hhorizontal, hvertical, AffineMap.lineMap_apply,
      AffineMap.lineMap_apply]
    norm_num [slicePosition]
  refine ⟨slice, h, hd, (hd.mask 0 (by decide) 0 (by decide)).2.mpr ?_, (hd.mask 1 (by decide) 1 (by decide)).1.mpr ?_⟩
  · rw [hcorner, InCylinder]
    norm_num
  · rw [hcentre, InCylinder]
    norm_num

theorem vectorAt_fitted (phi : ℝ) (p : ℝ × ℝ × ℝ) : (fitted none false 1).vectorAt phi p =
    .ok (Real.cos phi - Real.sin phi, Real.sin phi + Real.cos phi, 1) := by
  rw [vectorAt, modeSumAt_fitted, ok_bind]
  show Except.ok (1 * Real.cos phi - 1 * Real.sin phi, 1 * Real.sin phi + 1 * Real.cos phi, (1 : ℝ)) = _
  rw [one_mul, one_mul]

theorem point_tangent
    (h : m.evaluateFieldSlice .y radius ![2, 2] radius zLength stopRequested = .ok slice) :
    (slice.point 0 0).1 = 0 ∧ (slice.point 0 0).2.1 = radius := by
  obtain ⟨-, -, vs, -, rfl⟩ := evaluateFieldSlice_eq_ok.mp h
  rw [← pixelPosition_eq, pixelPosition, sliceBounds_upright (by decide)]
  refine ⟨?_, rfl⟩
  have hu := abs_pixelU_le (a := √(radius ^ 2 - radius ^ 2)) (two_pos : 0 < 2)
  rw [sub_self, Real.sqrt_zero, abs_zero] at hu
  rw [sub_self, Real.sqrt_zero]
  exact abs_nonpos_iff.mp hu

/-- **Near the axis the angle is lost**: a slice that touches a cylinder as thin as `epsilon`. -/
theorem not_forall_holds : ¬ ∀ (m : AnalyticsManager ℝ) (direction : SliceDirection) (coordinate : ℝ)
    (grid : Fin 2 → ℕ) (radius zLength : ℝ) (stopRequested : ℕ → Bool) (slice : FieldSlice ℝ),
    m.evaluateFieldSlice direction coordinate grid radius zLength stopRequested = .ok slice →
      ∀ row < grid 1, ∀ column < grid 0, slice.valid[row * grid 0 + column]? = some 1 →
        ∃ p v, slice.point row column = p ∧ slice.Holds (row * grid 0 + column) v ∧
          m.vectorAt (axisAngle p) p = .ok v := by
  intro hall
  have he := epsilon_pos
  obtain ⟨slice, h⟩ := exists_slice (acceptsSlice_fitted (abs_of_pos he).le he)
    fun c => ⟨_, modeSumAt_fitted none false 1 c⟩
  obtain ⟨hx, hy⟩ := point_tangent h
  have hr : 0 < (![2, 2] : Fin 2 → ℕ) 1 := by decide
  have hc : 0 < (![2, 2] : Fin 2 → ℕ) 0 := by decide
  have hvalid := valid_of_upright h (by decide) hr hc
  obtain ⟨_, w, rfl, hw, hwvec⟩ := hall _ _ _ _ _ _ _ slice h 0 hr 0 hc hvalid
  rcases pixel_cases h hr hc rfl with ⟨-, -, v, hv, hvec⟩ | ⟨hv, -, -⟩
  · -- the same entries hold the vector at angle 0 and the one at a right angle
    have hnear : hypot (slice.point 0 0).1 (slice.point 0 0).2.1 = epsilon := by
      rw [hx, hy, hypot_real, zero_pow two_ne_zero, zero_add, Real.sqrt_sq he.le]
    have hangle : axisAngle (slice.point 0 0) = Real.pi / 2 := by
      rw [axisAngle, hnear, if_neg he.ne', atan2_real, Complex.arg_eq_pi_div_two_iff]
      exact ⟨hx, hy ▸ he⟩
    rw [slicePhi_of_le hnear.le, vectorAt_fitted, Real.cos_zero, Real.sin_zero] at hvec
    rw [hangle, vectorAt_fitted, Real.cos_pi_div_two, Real.sin_pi_div_two, hw.unique hv, ← Except.ok.inj hvec] at hwvec
    have hfirst := congrArg Prod.fst (Except.ok.inj hwvec)
    norm_num at hfirst
  · rw [hvalid] at hv
    cases hv

end AnalyticsManager

end TPC.Analytics
