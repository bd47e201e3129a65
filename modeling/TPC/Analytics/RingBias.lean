import TPC.Analytics.Symmetry

/-!
# Constant errors of the azimuthal sensors

* `sum_circle`: cosines and sines of equally spaced angles add up to zero;
* `sum_ring`: the azimuthal components of a mode sum add up to zero over a ring; `overSensors_biased`,
  `eq_of_biased`;
* **`calculateSvdCoefficients_rejectsBias`**: a constant azimuthal error on each ring does not change
  what a fit stores.
-/

namespace TPC.Analytics

open Arith LeastSquares

/-- The angles of a closed polygon that does not turn back to its first corner at once. -/
theorem sum_circle {n : ℕ} {θ : ℝ} (hn : Real.cos (n * θ) = 1) (hθ : Real.cos θ ≠ 1) :
    ∑ j ∈ Finset.range n, Real.cos (j * θ) = 0 ∧ ∑ j ∈ Finset.range n, Real.sin (j * θ) = 0 := by
  have hpow : ∀ j : ℕ, Complex.exp (θ * Complex.I) ^ j = ⟨Real.cos (j * θ), Real.sin (j * θ)⟩ := by
    intro j
    rw [← Complex.exp_nat_mul, ← mul_assoc, ← Complex.ofReal_natCast, ← Complex.ofReal_mul]
    exact Complex.ext (Complex.exp_ofReal_mul_I_re _) (Complex.exp_ofReal_mul_I_im _)
  have hsin : Real.sin (n * θ) = 0 := by
    have h := Real.sin_sq_add_cos_sq (n * θ)
    rw [hn, one_pow, add_eq_right] at h
    exact pow_eq_zero_iff two_ne_zero |>.mp h
  have hone : Complex.exp (θ * Complex.I) ≠ 1 := by
    intro h
    apply hθ
    rw [← Complex.exp_ofReal_mul_I_re, h, Complex.one_re]
  have hsum : ∑ j ∈ Finset.range n, Complex.exp (θ * Complex.I) ^ j = 0 := by
    rw [geom_sum_eq hone, hpow, hn, hsin, div_eq_zero_iff]
    exact .inl (sub_eq_zero.mpr (Complex.ext rfl rfl))
  simp only [hpow] at hsum
  constructor
  · have h := congrArg Complex.re hsum
    rwa [Complex.re_sum] at h
  · have h := congrArg Complex.im hsum
    rwa [Complex.im_sum] at h

theorem sum_angles {n m : ℕ} (hm : 0 < m) (hn : m < n) :
    ∑ j ∈ Finset.range n, Real.cos (m * (2 * Real.pi * j / n)) = 0 ∧
      ∑ j ∈ Finset.range n, Real.sin (m * (2 * Real.pi * j / n)) = 0 := by
  have hm' : (0 : ℝ) < m := by exact_mod_cast hm
  have hn' : (m : ℝ) < n := by exact_mod_cast hn
  have hn₀ : (0 : ℝ) < n := hm'.trans hn'
  have hpi := Real.pi_pos
  have hclosed : Real.cos (n * (m * (2 * Real.pi / n))) = 1 := by
    rw [show (n : ℝ) * (m * (2 * Real.pi / n)) = m * (2 * Real.pi) by field_simp]
    exact Real.cos_nat_mul_two_pi m
  have hne : Real.cos (m * (2 * Real.pi / n)) ≠ 1 := by
    have hpos : 0 < (m : ℝ) * (2 * Real.pi / n) := by positivity
    have hlt : (m : ℝ) * (2 * Real.pi / n) < 2 * Real.pi := by
      rw [← mul_div_assoc, div_lt_iff₀ hn₀, mul_comm]
      exact mul_lt_mul_of_pos_left hn' (by positivity)
    intro h
    have hz := (Real.cos_eq_one_iff_of_lt_of_lt (by linarith) hlt).mp h
    exact hpos.ne' hz
  have hangle : ∀ j : ℕ, (m : ℝ) * (2 * Real.pi * j / n) = j * (m * (2 * Real.pi / n)) := fun j => by ring
  simp only [hangle]
  exact sum_circle hclosed hne

/-- **The azimuthal components of a mode sum cancel over a ring.** -/
theorem sum_ring (x : Fin 10 → ℝ) (R z : ℝ) {n : ℕ} (hn : 3 ≤ n) :
    ∑ j ∈ Finset.range n, modeTotal x ![R, 2 * Real.pi * j / n, z] 1 = 0 := by
  obtain ⟨hc, hs⟩ := sum_angles (n := n) one_pos (by omega)
  obtain ⟨hc₂, hs₂⟩ := sum_angles (n := n) two_pos (by omega)
  simp only [Nat.cast_one, one_mul] at hc hs
  rw [Nat.cast_ofNat] at hc₂ hs₂
  have hterm : ∀ j : ℕ, modeTotal x ![R, 2 * Real.pi * j / n, z] 1 =
      Real.sin (2 * Real.pi * j / n) * (-x 4 - z * x 6) + Real.cos (2 * Real.pi * j / n) * (x 5 + z * x 7) +
      (Real.sin (2 * (2 * Real.pi * j / n)) * (-R * x 8) + Real.cos (2 * (2 * Real.pi * j / n)) * (R * x 9)) := by
    intro j
    simp only [modeTotal_azimuthal, Matrix.cons_val]
    ring
  simp only [hterm, Finset.sum_add_distrib, ← Finset.sum_mul, hc, hs, hc₂, hs₂, zero_mul, add_zero]

/-- What the sensors of a field with a constant azimuthal error on each ring read. -/
noncomputable def biased (c : Fin 10 → ℝ) (bias : ℝ → ℝ) (p : Fin 3 → ℝ) : Fin 3 → ℝ :=
  modeTotal c p + ![0, bias (p 2), 0]

/-- The errors are orthogonal to every mode sum. -/
theorem overSensors_biased (c d : Fin 10 → ℝ) (bias : ℝ → ℝ) (R h : ℝ) {n : ℕ} (hn : 3 ≤ n) :
    overSensors (fun y i => y.fitted modeFunction d i * (y.fitted modeFunction c i - y.reading i))
      (AnalyticsManager.ringMeasurements (twoRings R h n) (biased c bias)) = 0 := by
  have herror : ∀ p, ∑ i, modeTotal d p i * (modeTotal c p i - biased c bias p i) =
      modeTotal d p 1 * -bias (p 2) := by
    intro p
    simp [biased, Fin.sum_univ_three]
  have hring : ∀ z, ((List.range n).map fun j : ℕ => modeTotal d ![R, 2 * Real.pi * j / n, z] 1 * -bias z).sum = 0 := by
    intro z
    rw [List.sum_map_mul_right]
    exact mul_eq_zero_of_left (sum_ring d R z hn) _
  rw [AnalyticsManager.ringMeasurements, overSensors_map]
  simp only [Measurement.fitted, Measurement.reading, AnalyticsManager.fittedField_modeFunction, herror]
  rw [twoRings, List.map_append, List.sum_append, List.map_map, List.map_map]
  exact (congrArg₂ (· + ·) (hring h) (hring (-h))).trans (add_zero 0)

namespace AnalyticsManager

variable {svd : JacobiSVD ℝ} {m m' : AnalyticsManager ℝ} {ms : List (Measurement ℝ)}

theorem eq_of_biased {R h : ℝ} {n : ℕ} (hR : 0 < R) (hh : 0 < h) (hn : 3 ≤ n) {c x : Fin 10 → ℝ} {bias : ℝ → ℝ}
    (hms : ms.Perm (ringMeasurements (twoRings R h n) (biased c bias)))
    (hx : ∀ z : Fin 10 → ℝ, misfit modeFunction (cylindricMeasurements ms) x ≤
      misfit modeFunction (cylindricMeasurements ms) z) : x = c := by
  have hcyl : ∀ y ∈ ms, y.pointComponents.coordinateType = .cylindric :=
    fun y hy => cylindric_ringMeasurements _ _ y (hms.mem_iff.mp hy)
  rw [cylindricMeasurements_of_cylindric hcyl] at hx
  have hdet : Determines modeFunction 10 (ms.map Measurement.place) := by
    have hplaces := hms.map Measurement.place
    rw [places_ringMeasurements] at hplaces
    exact fun x hx => determines_twoRings hR hh hn x fun p hp => hx p (hplaces.mem_iff.mpr hp)
  have hc : IsMinimiser (fitDesign modeFunction 10 ms).toMatrix (fitDesign modeFunction 10 ms).rhs c :=
    (isMinimiser_fitDesign modeFunction).mpr fun d =>
      (overSensors_perm hms).trans (overSensors_biased c d bias R h hn)
  refine misfit_unique hdet hx fun z => ?_
  have hz := hc z
  rwa [residual_fitDesign, residual_fitDesign] at hz

/-- **A fit filters constant azimuthal errors out.** When the sensors of two rings read a mode sum, and the
azimuthal ones an error more that is constant on each ring, a fit stores the coefficients of the sum. -/
theorem calculateSvdCoefficients_rejectsBias (hsvd : SolvesLeastSquares svd) (hm : m.IsDefault) {R h : ℝ}
    {n : ℕ} (hR : 0 < R) (hh : 0 < h) (hn : 3 ≤ n) (c : Fin 10 → ℝ) (bias : ℝ → ℝ)
    (hms : ms.Perm (ringMeasurements (twoRings R h n) (biased c bias)))
    (he : Ends svd m (.calculateSvdCoefficients ms 0) (.ok ()) m') :
    m'.storedCoefficients = List.ofFn c := by
  obtain ⟨-, x, hx, hmin⟩ := exists_defaultMinimiser hsvd hm he
  rw [hx, eq_of_biased hR hh hn hms hmin]

/-- `calculateSvdCoefficients_rejectsBias` for six sensors and different errors on the two rings. -/
theorem calculateSvdCoefficients_rejectsBias_rings : ∃ (ms : List (Measurement ℝ)) (m' : AnalyticsManager ℝ),
    ms = ringMeasurements (twoRings 1 1 3) (biased (fun _ => 1) fun z => z + 2) ∧
      Ends leastSquaresSVD defaultManager (.calculateSvdCoefficients ms 0) (.ok ()) m' ∧
      m'.storedCoefficients = List.ofFn fun _ : Fin 10 => (1 : ℝ) := by
  obtain ⟨m', h⟩ := exists_ends_fit leastSquaresSVD (m := defaultManager) hasFunctions_default rfl
    (admits_of_length le_rfl (length_ringMeasurements 1 1 (biased (fun _ => 1) fun z => z + 2)))
  exact ⟨_, m', rfl, h, calculateSvdCoefficients_rejectsBias solvesLeastSquares_leastSquaresSVD
    isDefault_defaultManager one_pos one_pos le_rfl _ _ (.refl _) h⟩

end AnalyticsManager

end TPC.Analytics
