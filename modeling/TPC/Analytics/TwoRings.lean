import TPC.Analytics.DefaultField
import TPC.Analytics.FieldSpec
import TPC.Analytics.SvdSpec
import TPC.Lib.LeastSquares

/-!
# The fit on two rings of sensors

Sensors at `(R, 2πj/n, ± h)` determine all ten coefficients of the default basis.

* `ModesVanish`, `PartsVanish`, **`eq_zero_of_modesVanish`**: the algebra of three angles and two
  heights;
* `twoRings`, `eq_zero_of_twoRings`;
* `Design.toMatrix`, `SolvesLeastSquares`: what is assumed of the decomposition;
* **`calculateSvdCoefficients_twoRings`**: full rank, and the fit returns the coefficients that the
  readings were evaluated from.
-/

namespace TPC.Analytics

open Arith

/-! ## Three angles and two heights -/

/-- The mode sums vanish at radius `R` and height `z`, at the angle with cosine `c` and sine `s`. -/
structure ModesVanish (x : Fin 10 → ℝ) (R z c s : ℝ) : Prop where
  radial : -(R / 2) * x 1 - R * z * x 2 + (3 / 8 * R ^ 3 - 3 / 2 * R * z ^ 2) * x 3 + c * x 4 +
    s * x 5 + z * c * x 6 + z * s * x 7 + R * (c ^ 2 - s ^ 2) * x 8 + R * (2 * s * c) * x 9 = 0
  azimuthal : -s * x 4 + c * x 5 - z * s * x 6 + z * c * x 7 - R * (2 * s * c) * x 8 +
    R * (c ^ 2 - s ^ 2) * x 9 = 0
  axial : x 0 + z * x 1 + (z ^ 2 - R ^ 2 / 2) * x 2 + (z ^ 3 - 3 / 2 * R ^ 2 * z) * x 3 +
    R * c * x 6 + R * s * x 7 = 0

/-- At heights `h` and `-h` the parts even and odd in `z` vanish each. -/
structure PartsVanish (x : Fin 10 → ℝ) (R h c s : ℝ) : Prop where
  radialEven : -(R / 2) * x 1 + (3 / 8 * R ^ 3 - 3 / 2 * R * h ^ 2) * x 3 + c * x 4 + s * x 5 +
    R * (c ^ 2 - s ^ 2) * x 8 + R * (2 * s * c) * x 9 = 0
  radialOdd : -R * x 2 + c * x 6 + s * x 7 = 0
  azimuthalEven : -s * x 4 + c * x 5 - R * (2 * s * c) * x 8 + R * (c ^ 2 - s ^ 2) * x 9 = 0
  azimuthalOdd : -s * x 6 + c * x 7 = 0
  axialEven : x 0 + (h ^ 2 - R ^ 2 / 2) * x 2 + R * c * x 6 + R * s * x 7 = 0
  axialOdd : x 1 + (h ^ 2 - 3 / 2 * R ^ 2) * x 3 = 0

theorem ModesVanish.parts {x : Fin 10 → ℝ} {R h c s : ℝ} (hh : h ≠ 0) (a : ModesVanish x R h c s)
    (b : ModesVanish x R (-h) c s) : PartsVanish x R h c s where
  radialEven := by linear_combination (a.radial + b.radial) / 2
  radialOdd := by
    apply mul_left_cancel₀ hh
    linear_combination (a.radial - b.radial) / 2
  azimuthalEven := by linear_combination (a.azimuthal + b.azimuthal) / 2
  azimuthalOdd := by
    apply mul_left_cancel₀ hh
    linear_combination (a.azimuthal - b.azimuthal) / 2
  axialEven := by linear_combination (a.axial + b.axial) / 2
  axialOdd := by
    apply mul_left_cancel₀ hh
    linear_combination (a.axial - b.axial) / 2

section Algebra

variable {x : Fin 10 → ℝ} {R h c s : ℝ}

/-- The modes odd in `z` in the plane, and even along the axis. -/
theorem PartsVanish.odd (hR : R ≠ 0) (hs : s ≠ 0) (a : PartsVanish x R h 1 0)
    (b : PartsVanish x R h c s) : x 0 = 0 ∧ x 2 = 0 ∧ x 6 = 0 ∧ x 7 = 0 := by
  have h₇ : x 7 = 0 := by linear_combination a.azimuthalOdd
  have h₆ : x 6 = 0 := by
    apply mul_left_cancel₀ hs
    linear_combination c * h₇ - b.azimuthalOdd
  have h₂ : x 2 = 0 := by
    apply mul_left_cancel₀ hR
    linear_combination h₆ - a.radialOdd
  have h₀ : x 0 = 0 := by linear_combination a.axialEven - (h ^ 2 - R ^ 2 / 2) * h₂ - R * h₆
  exact ⟨h₀, h₂, h₆, h₇⟩

/-- The modes odd in the angle. -/
theorem PartsVanish.sine (hR : R ≠ 0) (hs : s ≠ 0) (hcs : c ^ 2 + s ^ 2 = 1)
    (a : PartsVanish x R h 1 0) (b : PartsVanish x R h c s) (d : PartsVanish x R h c (-s)) :
    x 5 = 0 ∧ x 9 = 0 := by
  have hr : x 5 + 2 * R * c * x 9 = 0 := by
    apply mul_left_cancel₀ hs
    linear_combination (b.radialEven - d.radialEven) / 2
  have ha : c * x 5 + R * (c ^ 2 - s ^ 2) * x 9 = 0 := by
    linear_combination (b.azimuthalEven + d.azimuthalEven) / 2
  have h₉ : x 9 = 0 := by
    apply mul_left_cancel₀ hR
    linear_combination c * hr - ha - R * x 9 * hcs
  have h₅ : x 5 = 0 := by linear_combination a.azimuthalEven - R * h₉
  exact ⟨h₅, h₉⟩

/-- The modes even in the angle. -/
theorem PartsVanish.cosine (hR : R ≠ 0) (hs : s ≠ 0) (hc : c ≠ 1) (hcs : c ^ 2 + s ^ 2 = 1)
    (a : PartsVanish x R h 1 0) (b : PartsVanish x R h c s) (d : PartsVanish x R h c (-s)) :
    x 4 = 0 ∧ x 8 = 0 := by
  have h₄₈ : x 4 = -2 * R * c * x 8 := by
    apply mul_left_cancel₀ hs
    linear_combination -(b.azimuthalEven - d.azimuthalEven) / 2
  have h₈ : x 8 = 0 := by
    apply mul_left_cancel₀ (mul_ne_zero hR (sub_ne_zero.mpr hc))
    linear_combination ((b.radialEven + d.radialEven) / 2 - a.radialEven) / 2 - (c - 1) / 2 * h₄₈ +
      R * x 8 / 2 * hcs
  have h₄ : x 4 = 0 := by rw [h₄₈, h₈, mul_zero]
  exact ⟨h₄, h₈⟩

/-- The axisymmetric modes. -/
theorem PartsVanish.axisymmetric (hR : R ≠ 0) (a : PartsVanish x R h 1 0) (h₄ : x 4 = 0)
    (h₈ : x 8 = 0) : x 1 = 0 ∧ x 3 = 0 := by
  have hr : -(1 / 2) * x 1 + (3 / 8 * R ^ 2 - 3 / 2 * h ^ 2) * x 3 = 0 := by
    apply mul_left_cancel₀ hR
    linear_combination a.radialEven - h₄ - R * h₈
  have h₃ : x 3 = 0 := by
    have hpos : h ^ 2 + 3 / 8 * R ^ 2 ≠ 0 := by positivity
    apply mul_left_cancel₀ hpos
    linear_combination -a.axialOdd / 2 - hr
  have h₁ : x 1 = 0 := by linear_combination a.axialOdd - (h ^ 2 - 3 / 2 * R ^ 2) * h₃
  exact ⟨h₁, h₃⟩

/-- **No combination of the modes vanishes on both rings**: the parts even and odd in `z` and in the
angle decouple. -/
theorem eq_zero_of_modesVanish (hR : 0 < R) (hh : 0 < h)
    (hs : s ≠ 0) (hc : c ≠ 1) (hcs : c ^ 2 + s ^ 2 = 1)
    (hv : ∀ z, z = h ∨ z = -h → ModesVanish x R z 1 0 ∧ ModesVanish x R z c s ∧
      ModesVanish x R z c (-s)) : x = 0 := by
  obtain ⟨a, b, d⟩ := hv h (.inl rfl)
  obtain ⟨a', b', d'⟩ := hv (-h) (.inr rfl)
  have ha := a.parts hh.ne' a'
  have hb := b.parts hh.ne' b'
  have hd := d.parts hh.ne' d'
  obtain ⟨h₀, h₂, h₆, h₇⟩ := ha.odd hR.ne' hs hb
  obtain ⟨h₅, h₉⟩ := ha.sine hR.ne' hs hcs hb hd
  obtain ⟨h₄, h₈⟩ := ha.cosine hR.ne' hs hc hcs hb hd
  obtain ⟨h₁, h₃⟩ := ha.axisymmetric hR.ne' h₄ h₈
  funext k
  fin_cases k <;> assumption

end Algebra

/-! ## The sensors -/

/-- The mode sums of `x` at a cylindrical point. -/
noncomputable def modeTotal (x : Fin 10 → ℝ) (p : Fin 3 → ℝ) : Fin 3 → ℝ :=
  ∑ k : Fin 10, x k • modeVector k (p 0) (p 1) (p 2)

/-- The positions `(R, 2πj/n, h)` and `(R, 2πj/n, -h)`. -/
noncomputable def twoRings (R h : ℝ) (n : ℕ) : List (Fin 3 → ℝ) :=
  (List.range n).map (fun j : ℕ => ![R, 2 * Real.pi * j / n, h]) ++
    (List.range n).map (fun j : ℕ => ![R, 2 * Real.pi * j / n, -h])

theorem mem_twoRings {R h z : ℝ} {n j : ℕ} (hj : j < n) (hz : z = h ∨ z = -h) :
    ![R, 2 * Real.pi * j / n, z] ∈ twoRings R h n := by
  rw [twoRings, List.mem_append]
  rcases hz with rfl | rfl
  · exact .inl (List.mem_map.mpr ⟨j, List.mem_range.mpr hj, rfl⟩)
  · exact .inr (List.mem_map.mpr ⟨j, List.mem_range.mpr hj, rfl⟩)

theorem modesVanish_of_modeTotal {x : Fin 10 → ℝ} {R phi z : ℝ}
    (h : modeTotal x ![R, phi, z] = 0) : ModesVanish x R z (Real.cos phi) (Real.sin phi) := by
  have h₂ : (2.0 : ℝ) = 2 := by norm_num
  have h₀ := congrFun h 0
  have h₁ := congrFun h 1
  have h₃ := congrFun h 2
  simp [modeTotal, Fin.sum_univ_succ, modeVector, defaultBasisR, defaultBasisPhi, defaultBasisZ,
    cos_real, sin_real, h₂, Real.cos_two_mul', Real.sin_two_mul] at h₀ h₁ h₃
  constructor
  · linear_combination h₀
  · linear_combination h₁
  · linear_combination h₃

/-- Mode sums that vanish at all sensors have no coefficients. -/
theorem eq_zero_of_twoRings {x : Fin 10 → ℝ} {R h : ℝ} {n : ℕ} (hR : 0 < R) (hh : 0 < h)
    (hn : 3 ≤ n) (hv : ∀ p ∈ twoRings R h n, modeTotal x p = 0) : x = 0 := by
  have hn' : (3 : ℝ) ≤ n := by exact_mod_cast hn
  have hn₀ : (n : ℝ) ≠ 0 := by linarith
  have hpi := Real.pi_pos
  have hs : 0 < Real.sin (2 * Real.pi / n) := by
    apply Real.sin_pos_of_pos_of_lt_pi (by positivity)
    rw [div_lt_iff₀ (by linarith)]
    nlinarith
  have hcs := Real.cos_sq_add_sin_sq (2 * Real.pi / n)
  have hc : Real.cos (2 * Real.pi / n) ≠ 1 := by
    intro hc
    rw [hc, one_pow, add_eq_left] at hcs
    exact hs.ne' (pow_eq_zero_iff two_ne_zero |>.mp hcs)
  refine eq_zero_of_modesVanish hR hh hs.ne' hc hcs fun z hz => ⟨?_, ?_, ?_⟩
  · have h₀ := modesVanish_of_modeTotal (hv _ (mem_twoRings (by omega : 0 < n) hz))
    simpa using h₀
  · have h₁ := modesVanish_of_modeTotal (hv _ (mem_twoRings (by omega : 1 < n) hz))
    simpa using h₁
  · have h₂ := modesVanish_of_modeTotal (hv _ (mem_twoRings (by omega : n - 1 < n) hz))
    have hangle : 2 * Real.pi * (n - 1 : ℕ) / n = 2 * Real.pi - 2 * Real.pi / n := by
      rw [Nat.cast_sub (by omega : 1 ≤ n)]
      field_simp
      simp
    rwa [hangle, Real.cos_two_pi_sub, Real.sin_two_pi_sub] at h₂

/-! ## The fit -/

/-- The product of a matrix row with a vector. -/
noncomputable def dotRow {n : ℕ} (x : Fin n → ℝ) (row : List ℝ) : ℝ := ∑ j : Fin n, row.getD j 0 * x j

namespace Design

/-- The matrix of a design. -/
def toMatrix (d : Design ℝ) : Matrix (Fin d.matrix.length) (Fin d.columns) ℝ :=
  fun i j => d.matrix[i].getD j 0

/-- The right-hand side of a design. -/
def rhs (d : Design ℝ) : Fin d.matrix.length → ℝ := fun i => d.values.getD i 0

theorem toMatrix_mulVec_eq_zero {d : Design ℝ} {x : Fin d.columns → ℝ} :
    d.toMatrix.mulVec x = 0 ↔ ∀ row ∈ d.matrix, dotRow x row = 0 := by
  rw [List.forall_mem_iff_getElem, funext_iff]
  exact ⟨fun h i hi => h ⟨i, hi⟩, fun h i => h i i.isLt⟩

theorem toMatrix_mulVec_eq_rhs {d : Design ℝ} {x : Fin d.columns → ℝ}
    (h : d.matrix.map (dotRow x) = d.values) : d.toMatrix.mulVec x = d.rhs := by
  funext i
  rw [rhs, ← h, List.getD_eq_getElem?_getD, List.getElem?_map,
    List.getElem?_eq_getElem i.isLt]
  rfl

end Design

/-- What is assumed of the decomposition: with threshold 0 its solution is a least-squares
minimiser. -/
def SolvesLeastSquares (svd : JacobiSVD ℝ) : Prop :=
  ∀ d : Design ℝ, LeastSquares.IsMinimiser d.toMatrix d.rhs
    fun j : Fin d.columns => (svd.solve d 0).getD j 0

section Fit

/-- The functions of the default basis. -/
noncomputable def modeFunction (i : Fin 3) (k : ℕ) (r phi z : ℝ) : ℝ :=
  modeVector (toInt k) r phi z i

theorem defaultBasis_eq_ofFun : (defaultBasis : List (HeaderFunction ℝ)) =
    List.ofFn fun i => .ofFun (modeFunction i) := defaultBasis_eq

variable (ms : List (Measurement ℝ))

/-- The design of a list of measurements. -/
noncomputable def modeDesign : Design ℝ :=
  ⟨defaultModesCount, Fold.flat (ms.map fun x =>
    SVDSolver.totalRows modeFunction defaultModesCount x.pointComponents.components),
    Fold.flat (ms.map SVDSolver.valuesOf)⟩

theorem dotRow_modeFunction (p : Fin 3 → ℝ) (x : Fin 10 → ℝ) (i : Fin 3) :
    dotRow x ((List.range defaultModesCount).map fun k => modeFunction i k (p 0) (p 1) (p 2)) =
      modeTotal x p i := by
  have hint : ∀ k : Fin 10, toInt k = k := by decide
  rw [modeTotal, Finset.sum_apply]
  refine Finset.sum_congr rfl fun k _ => ?_
  have hk : (k : ℕ) < defaultModesCount := k.isLt
  rw [List.getD_eq_getElem?_getD, List.getElem?_map, List.getElem?_range hk, Option.map_some,
    Option.getD_some, modeFunction, hint, mul_comm, Pi.smul_apply, smul_eq_mul]

theorem modeDesign_map_dotRow (x : Fin 10 → ℝ) : (modeDesign ms).matrix.map (dotRow x) =
    Fold.flat (ms.map fun y => (modeTotal x y.pointComponents.components 0,
      modeTotal x y.pointComponents.components 1, modeTotal x y.pointComponents.components 2)) := by
  rw [modeDesign, Fold.map_flat, List.map_map]
  refine congrArg Fold.flat (List.map_congr_left fun y _ => ?_)
  simp only [Function.comp_apply, SVDSolver.totalRows, dotRow_modeFunction]

variable {ms}

/-- **Full column rank** on the two rings. -/
theorem modeDesign_injective {R h : ℝ} {n : ℕ} (hR : 0 < R) (hh : 0 < h) (hn : 3 ≤ n)
    (hms : ∀ p ∈ twoRings R h n, ∃ y ∈ ms, y.pointComponents.components = p) {x : Fin 10 → ℝ}
    (hx : (modeDesign ms).toMatrix.mulVec x = 0) : x = 0 := by
  have hrows := Design.toMatrix_mulVec_eq_zero.mp hx
  refine eq_zero_of_twoRings hR hh hn fun p hp => ?_
  obtain ⟨y, hy, rfl⟩ := hms p hp
  have hmem : ∀ v ∈ Fold.flat (ms.map fun y => (modeTotal x y.pointComponents.components 0,
      modeTotal x y.pointComponents.components 1, modeTotal x y.pointComponents.components 2)),
      v = 0 := by
    rw [← modeDesign_map_dotRow, List.forall_mem_map]
    exact hrows
  have hy' := fun v hv => hmem v (List.mem_flatMap.mpr ⟨_, List.mem_map.mpr ⟨y, hy, rfl⟩, hv⟩)
  funext i
  fin_cases i
  · exact hy' _ (by simp)
  · exact hy' _ (by simp)
  · exact hy' _ (by simp)

theorem modeDesign_mulVec {c : Fin 10 → ℝ}
    (hc : ∀ y ∈ ms, y.fieldComponents.components = modeTotal c y.pointComponents.components) :
    (modeDesign ms).toMatrix.mulVec c = (modeDesign ms).rhs := by
  apply Design.toMatrix_mulVec_eq_rhs
  refine (modeDesign_map_dotRow ms c).trans (congrArg Fold.flat (List.map_congr_left fun y hy => ?_))
  rw [SVDSolver.valuesOf, hc y hy]

theorem modeDesign_solve {svd : JacobiSVD ℝ} (hsvd : SolvesLeastSquares svd) {R h : ℝ} {n : ℕ}
    (hR : 0 < R) (hh : 0 < h) (hn : 3 ≤ n)
    (hms : ∀ p ∈ twoRings R h n, ∃ y ∈ ms, y.pointComponents.components = p) {c : Fin 10 → ℝ}
    (hc : ∀ y ∈ ms, y.fieldComponents.components = modeTotal c y.pointComponents.components) :
    (modeDesign ms).toMatrix.rank = defaultModesCount ∧
      svd.solve (modeDesign ms) 0 = List.ofFn c := by
  have hinj : ∀ x : Fin 10 → ℝ, (modeDesign ms).toMatrix.mulVec x = 0 → x = 0 :=
    fun x => modeDesign_injective hR hh hn hms
  constructor
  · exact (LeastSquares.rank_eq_card hinj).trans (Fintype.card_fin _)
  · have hx := (hsvd (modeDesign ms)).eq_of_mulVec hinj (modeDesign_mulVec hc)
    have hlen : (svd.solve (modeDesign ms) 0).length = 10 := svd.length_solve _ _
    apply List.ext_getElem (by rw [hlen, List.length_ofFn])
    intro k hk hk'
    have hk₁₀ : k < 10 := by omega
    have hkx : (svd.solve (modeDesign ms) 0).getD k 0 = c ⟨k, hk₁₀⟩ := congrFun hx ⟨k, hk₁₀⟩
    rw [List.getElem_ofFn, ← hkx, List.getD_eq_getElem?_getD, List.getElem?_eq_getElem hk]
    rfl

section Manager

open AnalyticsManager

theorem cylindricMeasurements_of_cylindric
    (h : ∀ y ∈ ms, y.pointComponents.coordinateType = .cylindric) : cylindricMeasurements ms = ms := by
  refine (List.map_congr_left fun y hy => ?_).trans (List.map_id ms)
  rw [PointComponents.transformCoordinates, if_pos (h y hy).symm]
  rfl

theorem design_default_eq_ok (h : ∀ y ∈ ms, y.pointComponents.coordinateType = .cylindric)
    {d : Design ℝ} : SVDSolver.design (cylindricMeasurements ms) defaultBasis defaultModesCount 0 =
      .ok d ↔ SVDSolver.Admits defaultModesCount ms (0 : ℝ) ∧ d = modeDesign ms := by
  rw [cylindricMeasurements_of_cylindric h, defaultBasis_eq_ofFun]
  constructor
  · intro hd
    have ha := SVDSolver.admits_of_design hd
    rw [SVDSolver.design_ofFun _ ha] at hd
    exact ⟨ha, (Except.ok.inj hd).symm⟩
  · rintro ⟨ha, rfl⟩
    exact SVDSolver.design_ofFun _ ha

theorem createDefaultBasis_eq {b : BasisCollection ℝ} (h : createDefaultBasis
    (ofModel defaultBasisR) (ofModel defaultBasisPhi) (ofModel defaultBasisZ) defaultModesCount
      (by decide) = .ok b) : b.basis = defaultBasis ∧ b.modes = defaultModesCount := by
  cases h
  exact ⟨rfl, rfl⟩

theorem evaluateForPoint_default {m : AnalyticsManager ℝ}
    (hbasis : m.basisCollection.basis = defaultBasis)
    (hmodes : m.basisCollection.modes = defaultModesCount) (c : Fin 10 → ℝ) (p : Fin 3 → ℝ) :
    ({ m with storedCoefficients := List.ofFn c } : AnalyticsManager ℝ).evaluateForPoint p =
      .ok ⟨modeTotal c p, .cylindric⟩ := by
  have hmissing : ¬ ({ m with storedCoefficients := List.ofFn c } :
      AnalyticsManager ℝ).coefficientsMissing := fun hne => hne (by
    rw [List.length_ofFn, hmodes]
    decide)
  have hsum := modeSum_defaultBasis c (p 0) (p 1) (p 2)
  rw [toArray_self] at hsum
  rw [evaluateForPoint_of_not_missing hmissing, modeSumAt, hbasis, hmodes, hsum]
  rfl

/-- **Fitting undoes evaluating.** On two rings of at least three sensors, in any order, the design
of the default basis has full column rank, and a fit of readings that were evaluated from `c` can
only store `c`. It succeeds whenever the number of matrix rows is an `Eigen::Index`. -/
theorem calculateSvdCoefficients_twoRings {svd : JacobiSVD ℝ} (hsvd : SolvesLeastSquares svd)
    {m : AnalyticsManager ℝ} (hm : createDefaultBasis (ofModel defaultBasisR)
      (ofModel defaultBasisPhi) (ofModel defaultBasisZ) defaultModesCount (by decide) =
        .ok m.basisCollection)
    {R h : ℝ} {n : ℕ} (hR : 0 < R) (hh : 0 < h) (hn : 3 ≤ n) {ms : List (Measurement ℝ)}
    (hpos : (ms.map Measurement.pointComponents).Perm
      ((twoRings R h n).map fun p => ⟨p, .cylindric⟩)) {c : Fin 10 → ℝ}
    (hfield : ∀ y ∈ ms, ({ m with storedCoefficients := List.ofFn c } :
      AnalyticsManager ℝ).evaluateForPoint y.pointComponents.components = .ok y.fieldComponents) :
    (∀ d, SVDSolver.design (cylindricMeasurements ms) m.basisCollection.basis
        m.basisCollection.modes 0 = .ok d → d.toMatrix.rank = defaultModesCount) ∧
      (∀ m', Ends svd m (.calculateSvdCoefficients ms 0) (.ok ()) m' →
        m'.storedCoefficients = List.ofFn c) ∧
      (2 * n ≤ indexMax / 3 → Ends svd m (.calculateSvdCoefficients ms 0) (.ok ())
        { m with storedCoefficients := List.ofFn c }) := by
  obtain ⟨hbasis, hmodes⟩ := createDefaultBasis_eq hm
  have hcyl : ∀ y ∈ ms, y.pointComponents.coordinateType = .cylindric := by
    intro y hy
    have hmem := hpos.mem_iff.mp (List.mem_map_of_mem hy)
    obtain ⟨p, -, he⟩ := List.mem_map.mp hmem
    rw [← he]
  have hms : ∀ p ∈ twoRings R h n, ∃ y ∈ ms, y.pointComponents.components = p := by
    intro p hp
    have hmem := hpos.mem_iff.mpr (List.mem_map_of_mem hp)
    obtain ⟨y, hy, he⟩ := List.mem_map.mp hmem
    exact ⟨y, hy, by rw [he]⟩
  have hc : ∀ y ∈ ms, y.fieldComponents.components = modeTotal c y.pointComponents.components := by
    intro y hy
    have hy' := (evaluateForPoint_default hbasis hmodes c _).symm.trans (hfield y hy)
    rw [← Except.ok.inj hy']
  have hdesign := fun d => design_default_eq_ok (d := d) hcyl
  rw [← hbasis, ← hmodes] at hdesign
  obtain ⟨hrank, hsolve⟩ := modeDesign_solve hsvd hR hh hn hms hc
  refine ⟨fun d hd => ?_, fun m' hends => ?_, fun hlen => ?_⟩
  · obtain ⟨-, rfl⟩ := (hdesign d).mp hd
    exact hrank
  · cases calculateSvdCoefficients_spec hends with
    | stored cs hcs =>
      obtain ⟨d, hd, hcs⟩ := Fold.bind_eq_ok.mp hcs
      obtain ⟨-, rfl⟩ := (hdesign d).mp hd
      rw [← hsolve]
      exact (Except.ok.inj hcs).symm
  · have hlength : ms.length = 2 * n := by
      have := hpos.length_eq
      simp only [List.length_map, twoRings, List.length_append, List.length_range] at this
      omega
    have ha : SVDSolver.Admits m.basisCollection.modes ms (0 : ℝ) := by
      rw [hmodes]
      exact ⟨List.ne_nil_of_length_pos (by omega), by decide, lt_irrefl _, hlength ▸ hlen, by decide⟩
    refine ends_calculateSvdCoefficients (List.ne_nil_of_length_pos (by omega)) ?_ ?_
    · rw [hbasis]
      exact List.cons_ne_nil _ _
    · rw [SVDSolver.solveSvd, (hdesign _).mpr ⟨ha, rfl⟩, Fold.ok_bind, hsolve]
      rfl

/-- A decomposition that chooses a least-squares minimiser. -/
noncomputable def leastSquaresSVD : JacobiSVD ℝ where
  solve d _ := List.ofFn (LeastSquares.exists_isMinimiser d.toMatrix d.rhs).choose
  length_solve _ _ := List.length_ofFn

theorem solvesLeastSquares_leastSquaresSVD : SolvesLeastSquares leastSquaresSVD := by
  intro d
  have h := (LeastSquares.exists_isMinimiser d.toMatrix d.rhs).choose_spec
  convert h using 1
  funext j
  rw [leastSquaresSVD, List.getD_eq_getElem?_getD, List.getElem?_ofFn, dif_pos j.isLt]
  rfl

/-- `calculateSvdCoefficients_twoRings` for six sensors and a field of all ten modes. -/
theorem calculateSvdCoefficients_twoRings_six : ∃ (m : AnalyticsManager ℝ)
    (ms : List (Measurement ℝ)), ms.length = 6 ∧
      Ends leastSquaresSVD m (.calculateSvdCoefficients ms 0) (.ok ())
        { m with storedCoefficients := List.ofFn fun _ : Fin 10 => 1 } := by
  obtain ⟨b, hb⟩ : ∃ b, createDefaultBasis (ofModel defaultBasisR) (ofModel defaultBasisPhi)
      (ofModel (F := ℝ) defaultBasisZ) defaultModesCount (by decide) = .ok b := ⟨_, rfl⟩
  obtain ⟨hbasis, hmodes⟩ := createDefaultBasis_eq hb
  let m : AnalyticsManager ℝ := ⟨b, none, false, []⟩
  let ms := (twoRings 1 1 3).map fun p => (⟨⟨p, .cylindric⟩,
    ⟨modeTotal (fun _ => 1) p, .cylindric⟩⟩ : Measurement ℝ)
  have hpos : (ms.map Measurement.pointComponents).Perm
      ((twoRings 1 1 3).map fun p => ⟨p, .cylindric⟩) := by
    rw [List.map_map]
    exact .refl _
  have hlen : ms.length = 6 := by simp [ms, twoRings]
  have h := calculateSvdCoefficients_twoRings solvesLeastSquares_leastSquaresSVD
    (show _ = Except.ok m.basisCollection from hb) one_pos one_pos le_rfl hpos fun y hy => by
      obtain ⟨p, -, rfl⟩ := List.mem_map.mp hy
      exact evaluateForPoint_default hbasis hmodes (fun _ => 1) p
  exact ⟨m, ms, hlen, h.2.2 (by decide)⟩

end Manager

end Fit

end TPC.Analytics
