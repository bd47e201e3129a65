import TPC.Analytics.Coherence
import TPC.Analytics.Collection
import TPC.Analytics.Image
import TPC.Analytics.PathExport

/-!
# The Cartesian field, four ways

`evaluate_field_slice`, the exporter after `calculate_field`, `transform_field` and the rotation of
`evaluate_for_point` each turn mode sums into Cartesian vectors with code of their own.

* `SliceInv`, **`evaluateFieldSlice_spec`**: every valid pixel of a slice;
* **`transformField_spec`**: every triple of a transformed collection;
* `export3dFieldToVtk_vectors`: every vector of an exported file;
* `Reconstructs`, **`reconstructs_unique`**: in exact arithmetic all of them agree.
-/

namespace TPC.Analytics.AnalyticsManager

open Arith Fold

variable {F : Type} [Arith F]

/-! ## Slices -/

section Slice

variable (m : AnalyticsManager F) (grid : Fin 2 → ℕ) (position : ℕ → ℕ → F × F × F)

/-- Every pixel marked valid holds the vector of its position. -/
structure SliceInv (bs : List (F × F × F)) (valid : List ℕ) : Prop where
  field_size : bs.length = grid 0 * grid 1
  valid_size : valid.length = grid 0 * grid 1
  vector : ∀ row < grid 1, ∀ column < grid 0, valid[row * grid 0 + column]? = some 1 →
    ∃ b, bs[row * grid 0 + column]? = some b ∧
      m.vectorAt (slicePhi (position row column).1 (position row column).2.1)
        (position row column) = .ok b

variable {m grid position}

/-- **A slice that was evaluated**: every valid pixel holds the vector of its position. -/
theorem evaluateFieldSlice_spec {direction : SliceDirection} {coordinate radius zLength : F}
    {stopRequested : ℕ → Bool} {slice : FieldSlice F}
    (h : m.evaluateFieldSlice direction coordinate grid radius zLength stopRequested = .ok slice) :
    ¬ m.coefficientsMissing ∧ ∃ bs, slice.field = flat bs ∧
      SliceInv m grid (fun row column => slicePosition direction coordinate
        (pixelU slice.horizontalBounds (grid 0) column)
        (pixelV slice.verticalBounds (grid 1) row)) bs slice.valid := by
  obtain ⟨ha, -, vs, hvs, rfl⟩ := evaluateFieldSlice_eq_ok.mp h
  have hlen := hvs.length_eq
  rw [List.length_range] at hlen
  refine ⟨ha.coefficients, _, rfl, ?_, ?_, fun row hr column hc hvalid => ?_⟩
  · rw [List.length_map, List.length_map, hlen]
  · rw [image, pixelBuffers, List.length_map, List.length_map, hlen]
  obtain ⟨v, hv, hvalue⟩ := exists_pixel hvs hr hc
  rw [image, pixelBuffers, List.getElem?_map, List.getElem?_map, hv] at hvalid
  refine ⟨(pixelEntry v).1, by rw [List.getElem?_map, List.getElem?_map, hv]; rfl, ?_⟩
  rcases pixelValue_eq_ok.mp hvalue with ⟨-, rfl⟩ | ⟨-, w, hw, rfl⟩
  · -- a pixel outside the cylinder is not valid
    cases hvalid
  · exact hw

end Slice

/-! ## Transformed collections -/

/-- **A transformed collection** holds the rotated vector of every triple. -/
theorem transformField_spec {fd fd' : FieldCollection F} {cs bs : List (F × F × F)}
    (hcs : fd.coordinates = flat cs) (hbs : fd.field = flat bs) (htype : fd.fieldType = .cylindric)
    (h : Prog.exec (Collection.transformField .cartesian) fd = some (.ok (), fd')) :
    fd'.field = flat (List.zipWith Collection.turned cs bs) := by
  have hexec := h
  rw [Collection.transformField, Prog.exec_bind_ok (Prog.exec_get _),
    if_neg (by rw [htype]; decide : ¬ fd.fieldType = .cartesian)] at h
  split_ifs at h with hempty hdim htypes hcoordinates hsizes
  case neg =>
    have hlen : cs.length = bs.length := by
      rw [hcs, hbs, length_flat, length_flat] at hsizes
      omega
    rw [Collection.exec_transformField hcs hbs hlen hempty (not_not.mp hdim) htype (not_not.mp hcoordinates)] at hexec
    cases hexec
    rfl
  all_goals cases h

/-! ## Exported files -/

theorem buildFile_vectors {fieldData coordinatesData : List F} {path : String}
    {file : Vtk.VtkFile F} (h : Vtk.buildFile fieldData coordinatesData path = .ok file) :
    file.vectors = List.zipWith Vtk.toVector (unflat coordinatesData) (unflat fieldData) := by
  unfold Vtk.buildFile at h
  obtain ⟨-, h⟩ := ite_error_eq_ok.mp h
  obtain ⟨-, h⟩ := ite_error_eq_ok.mp h
  obtain ⟨-, h⟩ := ite_error_eq_ok.mp h
  obtain ⟨-, h⟩ := ite_error_eq_ok.mp h
  obtain ⟨front, -, h⟩ := bind_eq_ok.mp h
  obtain ⟨pointsPerLayer, -, h⟩ := bind_eq_ok.mp h
  obtain ⟨-, h⟩ := ite_error_eq_ok.mp h
  obtain ⟨-, h⟩ := ite_error_eq_ok.mp h
  obtain ⟨-, -, h⟩ := bind_eq_ok.mp h
  obtain ⟨rows, -, h⟩ := bind_eq_ok.mp h
  obtain ⟨-, h⟩ := ite_error_eq_ok.mp h
  obtain ⟨triangles, -, h⟩ := bind_eq_ok.mp h
  obtain ⟨-, h⟩ := ite_error_eq_ok.mp h
  obtain ⟨-, h⟩ := ite_error_eq_ok.mp h
  obtain ⟨-, h⟩ := ite_error_eq_ok.mp h
  cases h
  rfl

/-- The vectors of an exported file are those of the stored triples. -/
theorem export3dFieldToVtk_vectors {fs : Vtk.FileSystem} {cs bs : List (F × F × F)} {path : String}
    {file : Vtk.VtkFile F} (h : Vtk.export3dFieldToVtk fs (flat bs) (flat cs) path = .ok file) :
    file.vectors = List.zipWith Vtk.toVector cs bs := by
  unfold Vtk.export3dFieldToVtk at h
  obtain ⟨file', hfile, h⟩ := bind_eq_ok.mp h
  have hvectors := buildFile_vectors hfile
  rw [unflat_flat, unflat_flat] at hvectors
  cases hd : (fs.parentPath path).bind fs.createDirectories with
  | some message =>
    rw [hd] at h
    cases h
  | none =>
    rw [hd] at h
    dsimp only at h
    split_ifs at h
    cases h
    exact hvectors

/-! ## Agreement -/

section Real

variable {svd : JacobiSVD ℝ} {m : AnalyticsManager ℝ} {p v w : ℝ × ℝ × ℝ}

/-- The angle of a Cartesian position, 0 on the axis. -/
noncomputable def axisAngle (p : ℝ × ℝ × ℝ) : ℝ :=
  if hypot p.1 p.2.1 = 0 then 0 else atan2 p.2.1 p.1

/-- The four ways to a Cartesian vector `v` at the Cartesian position `p` with the coefficients of
`m`. -/
inductive Reconstructs (svd : JacobiSVD ℝ) (m : AnalyticsManager ℝ) (p v : ℝ × ℝ × ℝ) : Prop
  /-- `v` is stored at a valid pixel with this position. -/
  | slice {direction : SliceDirection} {coordinate radius zLength : ℝ} {grid : Fin 2 → ℕ}
    {stopRequested : ℕ → Bool} {slice : FieldSlice ℝ} {row column : ℕ}
    (h : m.evaluateFieldSlice direction coordinate grid radius zLength stopRequested = .ok slice)
    (hr : row < grid 1) (hc : column < grid 0)
    (hp : slicePosition direction coordinate (pixelU slice.horizontalBounds (grid 0) column)
      (pixelV slice.verticalBounds (grid 1) row) = p)
    (hv : slice.valid[row * grid 0 + column]? = some 1)
    (hx : slice.field[(row * grid 0 + column) * 3]? = some v.1)
    (hy : slice.field[(row * grid 0 + column) * 3 + 1]? = some v.2.1)
    (hz : slice.field[(row * grid 0 + column) * 3 + 2]? = some v.2.2)
  /-- `v` is written for a grid point generated at this position. -/
  | file {fuel : ℕ} {g : Fin 3 → ℕ} {radius zLength : ℝ} {m' : AnalyticsManager ℝ}
    {points : List (ℝ × ℝ × ℝ)} {i : ℕ} {fs : Vtk.FileSystem} {path : String}
    {file : Vtk.VtkFile ℝ}
    (h : Ends svd m (.calculateField fuel g radius zLength) (.ok ()) m')
    (hpoints : gridPoints fuel g radius zLength = some points) (hp : points[i]? = some p)
    (hfile : m'.exportToVtkPath (Vtk.export3dFieldToVtk fs) path = .ok file)
    (hv : file.vectors[i]? = some v)
  /-- `v` is left by `transform_field` where the stored coordinate of this position was. -/
  | transform {fd fd' : FieldCollection ℝ} {cs bs vs : List (ℝ × ℝ × ℝ)} {i : ℕ} {b : ℝ × ℝ × ℝ}
    (hcs : fd.coordinates = flat cs) (hbs : fd.field = flat bs) (htype : fd.fieldType = .cylindric)
    (hp : cs[i]? = some (polar p)) (hb : bs[i]? = some b)
    (hfield : m.modeSumAt (toArray (polar p)) = .ok (toArray b))
    (h : Prog.exec (Collection.transformField .cartesian) fd = some (.ok (), fd')) (hvs : fd'.field = flat vs)
    (hv : vs[i]? = some v)
  /-- `v` is what `evaluate_for_point` gives, rotated by the angle of the position. -/
  | point {b : FieldComponents ℝ}
    (h : m.evaluateForPoint (toArray (hypot p.1 p.2.1, axisAngle p, p.2.2)) = .ok b)
    (hx : v.1 = b.components 0 * Real.cos (axisAngle p) - b.components 1 * Real.sin (axisAngle p))
    (hy : v.2.1 = b.components 0 * Real.sin (axisAngle p) + b.components 1 * Real.cos (axisAngle p))
    (hz : v.2.2 = b.components 2)

theorem angle_eq (hp : hypot p.1 p.2.1 = 0 ∨ epsilon < hypot p.1 p.2.1) :
    slicePhi p.1 p.2.1 = axisAngle p ∧ polar p = (hypot p.1 p.2.1, axisAngle p, p.2.2) := by
  have he := epsilon_pos
  rcases hp with hp | hp
  · have h₁ : hypot p.1 p.2.1 ≤ epsilon := by rw [hp]; exact he.le
    have h₂ : hypot p.1 p.2.1 < epsilon := by rw [hp]; exact he
    rw [slicePhi, polar, axisAngle, if_pos h₁, if_pos hp, if_pos h₂]
    exact ⟨rfl, rfl⟩
  · have h₀ : ¬ hypot p.1 p.2.1 = 0 := (he.trans hp).ne'
    rw [slicePhi, polar, axisAngle, if_neg (not_le.mpr hp), if_neg h₀, if_neg (not_lt.mpr hp.le)]
    exact ⟨rfl, rfl⟩

theorem vectorAt_of_modeSumAt {b : ℝ × ℝ × ℝ} (hp : hypot p.1 p.2.1 = 0 ∨ epsilon < hypot p.1 p.2.1)
    (h : m.modeSumAt (toArray (polar p)) = .ok (toArray b)) :
    m.vectorAt (axisAngle p) p = .ok (Vtk.toVector (polar p) b) := by
  rw [(angle_eq hp).2] at h ⊢
  exact vectorAt_eq_ok.mpr ⟨_, h, rfl⟩

/-- **Every way gives the mode sums rotated through the angle of the position.** -/
theorem Reconstructs.vectorAt (hc : ¬ m.coefficientsMissing)
    (hp : hypot p.1 p.2.1 = 0 ∨ epsilon < hypot p.1 p.2.1) (h : Reconstructs svd m p v) :
    m.vectorAt (axisAngle p) p = .ok v := by
  cases h with
  | slice h hr hc' hpos hv hx hy hz =>
    obtain ⟨-, bs, hbs, hinv⟩ := evaluateFieldSlice_spec h
    obtain ⟨b, hb, hvec⟩ := hinv.vector _ hr _ hc' hv
    obtain ⟨h₀, h₁, h₂⟩ := flat_getElem? bs _
    rw [hbs, h₀, hb] at hx
    rw [hbs, h₁, hb] at hy
    rw [hbs, h₂, hb] at hz
    have hbv : b = v :=
      Prod.ext (Option.some.inj hx) (Prod.ext (Option.some.inj hy) (Option.some.inj hz))
    rw [hpos, (angle_eq hp).1, hbv] at hvec
    exact hvec
  | @file fuel g radius zLength m' points i fs path file h hpoints hpi hfile hv =>
    cases calculateField_spec h with
    | completed fd₀ points' bs ha hc =>
      have hpoints' := hpoints.symm.trans hc.grid
      cases hpoints'
      rw [exportToVtkPath_eq] at hfile
      dsimp only [completed] at hfile
      split_ifs at hfile
      rw [export3dFieldToVtk_vectors hfile, List.getElem?_zipWith, List.getElem?_map, hpi] at hv
      cases hb : bs[i]? with
      | none =>
        rw [hb] at hv
        cases hv
      | some b =>
        rw [hb] at hv
        rw [← Option.some.inj hv]
        exact vectorAt_of_modeSumAt hp
          (forall₂_getElem? hc.field (by rw [List.getElem?_map, hpi]; rfl) hb)
  | transform hcs hbs htype hpi hb hfield h hvs hv =>
    rw [transformField_spec hcs hbs htype h] at hvs
    rw [← flat_injective hvs, List.getElem?_zipWith, hpi, hb] at hv
    rw [← Option.some.inj hv]
    exact vectorAt_of_modeSumAt hp hfield
  | point h hx hy hz =>
    rw [evaluateForPoint_of_not_missing hc] at h
    cases hb : m.modeSumAt (toArray (hypot p.1 p.2.1, axisAngle p, p.2.2)) with
    | error e =>
      rw [hb] at h
      cases h
    | ok b =>
      rw [hb] at h
      cases h
      exact vectorAt_eq_ok.mpr ⟨b, hb, Prod.ext hx.symm (Prod.ext hy.symm hz.symm)⟩

/-- **All reconstruction paths agree** at every position on the axis or more than `epsilon` off
it. -/
theorem reconstructs_unique (hc : ¬ m.coefficientsMissing)
    (hp : hypot p.1 p.2.1 = 0 ∨ epsilon < hypot p.1 p.2.1) (hv : Reconstructs svd m p v)
    (hw : Reconstructs svd m p w) : v = w :=
  Except.ok.inj ((hv.vectorAt hc hp).symm.trans (hw.vectorAt hc hp))

/-- `reconstructs_unique` on the `y` axis, for a transformed collection and for `evaluate_for_point`: a quarter turn
takes `(1, 1, 1)` to `(-1, 1, 1)`. -/
theorem reconstructs_unique_quarter : ∃ w : ℝ × ℝ × ℝ,
    Reconstructs columnSVD (fitted none false 1) (0, 1, 0) (-1, 1, 1) ∧
      Reconstructs columnSVD (fitted none false 1) (0, 1, 0) w ∧ (-1, 1, 1) = w := by
  have hc := not_coefficientsMissing_fitted none false 1
  have hone : hypot (0 : ℝ) 1 = 1 := by rw [hypot_real]; simp
  have hp : epsilon < hypot (0 : ℝ) 1 := by
    rw [hone, epsilon_real]
    norm_num
  have hangle : axisAngle (0, 1, 0) = Real.pi / 2 := by
    have harg : Complex.arg ⟨0, 1⟩ = Real.pi / 2 := Complex.arg_I
    rw [axisAngle, hone, if_neg one_ne_zero, atan2_real, harg]
  have hpolar : polar ((0 : ℝ), (1 : ℝ), (0 : ℝ)) = (1, Real.pi / 2, 0) := by
    rw [(angle_eq (.inr hp)).2, hangle, hone]
  let fd : FieldCollection ℝ := ⟨3, .cylindric, .cylindric, flat [(1, Real.pi / 2, 0)], flat [(1, 1, 1)]⟩
  have hturned : Collection.turned ((1 : ℝ), Real.pi / 2, (0 : ℝ)) (1, 1, 1) = (-1, 1, 1) := by
    simp [Collection.turned, cos_real, sin_real]
  have hfd : Prog.exec (Collection.transformField .cartesian) fd =
      some (.ok (), ⟨3, .cylindric, .cartesian, flat [(1, Real.pi / 2, 0)], flat [(-1, 1, 1)]⟩) := by
    have hcs : fd.coordinates = flat [(1, Real.pi / 2, 0)] := rfl
    have hbs : fd.field = flat [(1, 1, 1)] := rfl
    rw [← hturned]
    exact Collection.exec_transformField hcs hbs rfl Bool.false_ne_true rfl rfl rfl
  have h₁ : Reconstructs columnSVD (fitted none false 1) (0, 1, 0) (-1, 1, 1) := by
    refine @Reconstructs.transform _ _ _ _ fd _ [(1, Real.pi / 2, 0)] [(1, 1, 1)] [(-1, 1, 1)] 0 (1, 1, 1) rfl rfl rfl
      (by rw [hpolar]; rfl) rfl ?_ hfd rfl rfl
    rw [modeSumAt_fitted]
    exact congrArg Except.ok (toArray_self fun _ => 1).symm
  have h₂ := @Reconstructs.point columnSVD (fitted none false 1) (0, 1, 0) (_, _, _) _
    ((evaluateForPoint_of_not_missing hc _).trans (congrArg _ (modeSumAt_fitted none false 1 _))) rfl rfl rfl
  exact ⟨_, h₁, h₂, reconstructs_unique hc (.inr hp) h₁ h₂⟩

end Real

end TPC.Analytics.AnalyticsManager
