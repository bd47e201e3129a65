import TPC.Analytics.RingBias
import TPC.Analytics.Threshold

/-!
# How well the sensors of the chamber determine the coefficients

At the sensors of the chamber, radius 4 and half length 3.5, no singular value of the default basis is below
a hundredth of the largest one, so that a small threshold leaves nothing out.

* `trig_sq`, `sum_trig_sq`: the squares of a sum of two waves, over equally spaced angles;
* `ringSquares`, `ringSquares_eq`; **`ringSquares_chamber`**: the squares of a mode sum over the rings;
* **`truncatedFit_eq`**: a fit with a small threshold returns the coefficients that the readings come from.
-/

namespace TPC.Analytics

open Arith LeastSquares TruncatedSVD

theorem trig_sq (a b c d e φ : ℝ) :
    (a + b * Real.cos φ + c * Real.sin φ + d * Real.cos (2 * φ) + e * Real.sin (2 * φ)) ^ 2 =
      a ^ 2 + (b ^ 2 + c ^ 2 + d ^ 2 + e ^ 2) / 2 +
        ((2 * a * b + b * d + c * e) * Real.cos φ + (2 * a * c + b * e - c * d) * Real.sin φ) +
        ((2 * a * d + (b ^ 2 - c ^ 2) / 2) * Real.cos (2 * φ) + (2 * a * e + b * c) * Real.sin (2 * φ)) +
        ((b * d - c * e) * Real.cos (3 * φ) + (b * e + c * d) * Real.sin (3 * φ)) +
        ((d ^ 2 - e ^ 2) / 2 * Real.cos (4 * φ) + d * e * Real.sin (4 * φ)) := by
  have p₁ := Real.cos_sq_add_sin_sq φ
  have p₂ := Real.cos_sq_add_sin_sq (2 * φ)
  have e₁ := Real.cos_sub (2 * φ) φ
  have e₂ := Real.sin_sub (2 * φ) φ
  have e₃ := Real.cos_add (2 * φ) φ
  have e₄ := Real.sin_add (2 * φ) φ
  have e₅ := Real.cos_two_mul' φ
  have e₆ := Real.sin_two_mul φ
  have e₇ := Real.cos_two_mul' (2 * φ)
  have e₈ := Real.sin_two_mul (2 * φ)
  rw [show 2 * φ - φ = φ by ring] at e₁ e₂
  rw [show 2 * φ + φ = 3 * φ by ring] at e₃ e₄
  rw [show 2 * (2 * φ) = 4 * φ by ring] at e₇ e₈
  linear_combination (b ^ 2 + c ^ 2) / 2 * p₁ + (c ^ 2 - b ^ 2) / 2 * e₅ + (d ^ 2 + e ^ 2) / 2 * p₂ +
    (e ^ 2 - d ^ 2) / 2 * e₇ - b * c * e₆ - (b * d + c * e) * e₁ + (c * e - b * d) * e₃ +
    (c * d - b * e) * e₂ - (b * e + c * d) * e₄ - d * e * e₈

theorem sum_trig_sq {n : ℕ} (hn : 5 ≤ n) (a b c d e : ℝ) :
    ∑ j ∈ Finset.range n, (a + b * Real.cos (2 * Real.pi * j / n) + c * Real.sin (2 * Real.pi * j / n) +
        d * Real.cos (2 * (2 * Real.pi * j / n)) + e * Real.sin (2 * (2 * Real.pi * j / n))) ^ 2 =
      n * (a ^ 2 + (b ^ 2 + c ^ 2 + d ^ 2 + e ^ 2) / 2) := by
  obtain ⟨hc₁, hs₁⟩ := sum_angles (m := 1) (n := n) (by omega) (by omega)
  obtain ⟨hc₂, hs₂⟩ := sum_angles (m := 2) (n := n) (by omega) (by omega)
  obtain ⟨hc₃, hs₃⟩ := sum_angles (m := 3) (n := n) (by omega) (by omega)
  obtain ⟨hc₄, hs₄⟩ := sum_angles (m := 4) (n := n) (by omega) (by omega)
  rw [Nat.cast_one] at hc₁ hs₁
  simp only [one_mul] at hc₁ hs₁
  rw [Nat.cast_ofNat] at hc₂ hs₂ hc₃ hs₃ hc₄ hs₄
  simp only [trig_sq, Finset.sum_add_distrib, ← Finset.mul_sum, hc₁, hs₁, hc₂, hs₂, hc₃, hs₃, hc₄, hs₄, mul_zero,
    add_zero, Finset.sum_const, Finset.card_range, nsmul_eq_mul]
  ring

/-- The squares of a mode sum over a ring of `n` sensors. -/
noncomputable def ringSquares (n : ℕ) (x : Fin 10 → ℝ) (R z : ℝ) : ℝ :=
  ∑ j ∈ Finset.range n, ∑ i, modeTotal x ![R, 2 * Real.pi * j / n, z] i ^ 2

section Ring

variable {n : ℕ} (hn : 5 ≤ n) (x : Fin 10 → ℝ) (R z : ℝ)

include hn

theorem sum_radial_sq : ∑ j ∈ Finset.range n, modeTotal x ![R, 2 * Real.pi * j / n, z] 0 ^ 2 =
    n * ((-(R / 2) * x 1 - R * z * x 2 + (3 / 8 * R ^ 3 - 3 / 2 * R * z ^ 2) * x 3) ^ 2 +
      ((x 4 + z * x 6) ^ 2 + (x 5 + z * x 7) ^ 2 + (R * x 8) ^ 2 + (R * x 9) ^ 2) / 2) := by
  rw [← sum_trig_sq hn]
  refine Finset.sum_congr rfl fun j _ => ?_
  simp only [modeTotal_radial, Matrix.cons_val]
  ring

theorem sum_azimuthal_sq : ∑ j ∈ Finset.range n, modeTotal x ![R, 2 * Real.pi * j / n, z] 1 ^ 2 =
    n * (0 ^ 2 + ((x 5 + z * x 7) ^ 2 + (-(x 4 + z * x 6)) ^ 2 + (R * x 9) ^ 2 + (-(R * x 8)) ^ 2) / 2) := by
  rw [← sum_trig_sq hn]
  refine Finset.sum_congr rfl fun j _ => ?_
  simp only [modeTotal_azimuthal, Matrix.cons_val]
  ring

theorem sum_axial_sq : ∑ j ∈ Finset.range n, modeTotal x ![R, 2 * Real.pi * j / n, z] 2 ^ 2 =
    n * ((x 0 + z * x 1 + (z ^ 2 - R ^ 2 / 2) * x 2 + (z ^ 3 - 3 / 2 * R ^ 2 * z) * x 3) ^ 2 +
      ((R * x 6) ^ 2 + (R * x 7) ^ 2 + 0 ^ 2 + 0 ^ 2) / 2) := by
  rw [← sum_trig_sq hn]
  refine Finset.sum_congr rfl fun j _ => ?_
  simp only [modeTotal_axial, Matrix.cons_val]
  ring

theorem ringSquares_eq : ringSquares n x R z =
    n * ((-(R / 2) * x 1 - R * z * x 2 + (3 / 8 * R ^ 3 - 3 / 2 * R * z ^ 2) * x 3) ^ 2 +
      (x 0 + z * x 1 + (z ^ 2 - R ^ 2 / 2) * x 2 + (z ^ 3 - 3 / 2 * R ^ 2 * z) * x 3) ^ 2 +
      (x 4 + z * x 6) ^ 2 + (x 5 + z * x 7) ^ 2 + R ^ 2 * (x 6 ^ 2 + x 7 ^ 2) / 2 + R ^ 2 * (x 8 ^ 2 + x 9 ^ 2)) := by
  simp only [ringSquares, Fin.sum_univ_three, Finset.sum_add_distrib]
  rw [sum_radial_sq hn, sum_azimuthal_sq hn, sum_axial_sq hn]
  ring

/-- **At the sensors of the chamber** no mode is weak, and none is strong. -/
theorem ringSquares_chamber : ∃ q : ℝ, ringSquares n x 4 (7 / 2) + ringSquares n x 4 (-(7 / 2)) = n * q ∧
    x ⬝ᵥ x ≤ q ∧ q ≤ 9000 * (x ⬝ᵥ x) := by
  have hsum := congrArg₂ (· + ·) (ringSquares_eq hn x 4 (7 / 2)) (ringSquares_eq hn x 4 (-(7 / 2)))
  rw [← mul_add] at hsum
  refine ⟨_, hsum, ?_, ?_⟩ <;> clear hsum
  · simp only [dotProduct, Fin.sum_univ_succ]
    simp
    nlinarith [sq_nonneg (x 0 + 17 / 2 * x 2), sq_nonneg (x 1 - 3 * x 3), sq_nonneg (x 1), sq_nonneg (x 2),
      sq_nonneg (x 3), sq_nonneg (x 4), sq_nonneg (x 5), sq_nonneg (x 6), sq_nonneg (x 7), sq_nonneg (x 8),
      sq_nonneg (x 9)]
  · simp only [dotProduct, Fin.sum_univ_succ]
    simp
    nlinarith [sq_nonneg (x 0 - x 2), sq_nonneg (x 1 + x 3), sq_nonneg (x 0), sq_nonneg (x 1), sq_nonneg (x 2),
      sq_nonneg (x 3), sq_nonneg (x 4), sq_nonneg (x 5), sq_nonneg (x 6), sq_nonneg (x 7), sq_nonneg (x 8),
      sq_nonneg (x 9)]

end Ring

namespace AnalyticsManager

variable {ms : List (Measurement ℝ)} {n : ℕ} {c : Fin 10 → ℝ} {bias : ℝ → ℝ} {t : ℝ}

theorem gram_twoRings (hms : ms.Perm (ringMeasurements (twoRings 4 (7 / 2) n) (biased c bias)))
    (x : Fin 10 → ℝ) : (cylindricDesign modeFunction 10 ms).toMatrix.mulVec x ⬝ᵥ
      (cylindricDesign modeFunction 10 ms).toMatrix.mulVec x =
        ringSquares n x 4 (7 / 2) + ringSquares n x 4 (-(7 / 2)) := by
  have hcyl : ∀ y ∈ ms, y.pointComponents.coordinateType = .cylindric :=
    fun y hy => cylindric_ringMeasurements _ _ y (hms.mem_iff.mp hy)
  have hring : ∀ z : ℝ, ((List.range n).map fun j : ℕ =>
      ∑ i, modeTotal x ![4, 2 * Real.pi * j / n, z] i ^ 2).sum = ringSquares n x 4 z := fun _ => rfl
  refine (gram_fitDesign modeFunction _ x x).trans ?_
  rw [cylindricMeasurements_of_cylindric hcyl, overSensors_perm hms, ringMeasurements, overSensors_map]
  simp only [Measurement.fitted, fittedField_modeFunction, ← sq]
  rw [twoRings, List.map_append, List.sum_append, List.map_map, List.map_map]
  exact congrArg₂ (· + ·) (hring _) (hring _)

/-- **No mode is left out**: the coefficients are those that the readings come from, without the constant
azimuthal errors of the rings. -/
theorem truncatedFit_eq (hn : 5 ≤ n) (ht : 0 ≤ t) (hsmall : t ≤ 1 / 100)
    (hms : ms.Perm (ringMeasurements (twoRings 4 (7 / 2) n) (biased c bias))) {k : ℕ}
    (S : Decomposition (cylindricDesign modeFunction 10 ms).toMatrix (Fin k)) : truncatedFit S t = c := by
  have hn₀ : (0 : ℝ) < n := by exact_mod_cast (by omega : 0 < n)
  have hkeeps : ∀ i, S.Keeps t i := by
    refine S.keeps_of_bounds (c := n) (C := 9000 * n) (fun x => ?_) (fun x => ?_) ?_
    · obtain ⟨q, hq, hle, -⟩ := ringSquares_chamber hn x
      exact (mul_le_mul_of_nonneg_left hle hn₀.le).trans_eq ((gram_twoRings hms x).trans hq).symm
    · obtain ⟨q, hq, -, hle⟩ := ringSquares_chamber hn x
      refine ((gram_twoRings hms x).trans hq).trans_le ?_
      rw [mul_comm 9000, mul_assoc]
      exact mul_le_mul_of_nonneg_left hle hn₀.le
    · have hsq : t ^ 2 ≤ (1 / 100) ^ 2 := pow_le_pow_left₀ ht hsmall 2
      nlinarith
  refine eq_of_biased four_pos (by norm_num) (by omega) hms fun z => ?_
  rw [← residual_fitDesign, ← residual_fitDesign]
  exact S.isMinimiser_solve (fun i _ => hkeeps i) z

end AnalyticsManager

end TPC.Analytics
