import Mathlib

/-!
# Linear least squares

* `residual`, `IsMinimiser`;
* `exists_isMinimiser`: there always is one;
* **`IsMinimiser.eq_of_mulVec`**: with full column rank, the minimiser of attainable values is
  their preimage; `rank_eq_card`.
-/

namespace LeastSquares

variable {m n : Type} [Fintype m] [Fintype n] (A : Matrix m n ℝ) (b : m → ℝ)

/-- The sum of the squared errors. -/
noncomputable def residual (x : n → ℝ) : ℝ := ∑ i, (A.mulVec x i - b i) ^ 2

/-- No vector has a smaller residual. -/
def IsMinimiser (x : n → ℝ) : Prop := ∀ y, residual A b x ≤ residual A b y

variable {A b}

theorem residual_nonneg (x : n → ℝ) : 0 ≤ residual A b x := Finset.sum_nonneg fun _ _ => sq_nonneg _

theorem residual_eq_zero {x : n → ℝ} : residual A b x = 0 ↔ A.mulVec x = b := by
  rw [residual, Finset.sum_eq_zero_iff_of_nonneg fun _ _ => sq_nonneg _, funext_iff]
  simp [sub_eq_zero]

/-- **Uniqueness**: a minimiser is the vector that the values come from. -/
theorem IsMinimiser.eq_of_mulVec (hA : ∀ x, A.mulVec x = 0 → x = 0) {c x : n → ℝ}
    (hx : IsMinimiser A b x) (hc : A.mulVec c = b) : x = c := by
  have h : residual A b x = 0 :=
    le_antisymm ((hx c).trans (residual_eq_zero.mpr hc).le) (residual_nonneg x)
  have hsub : A.mulVec (x - c) = 0 := by
    rw [Matrix.mulVec_sub, residual_eq_zero.mp h, hc, sub_self]
  exact sub_eq_zero.mp (hA _ hsub)

omit [Fintype m] in
theorem rank_eq_card (hA : ∀ x, A.mulVec x = 0 → x = 0) : A.rank = Fintype.card n := by
  have hinj : Function.Injective A.mulVecLin := by
    rw [injective_iff_map_eq_zero]
    exact hA
  rw [Matrix.rank, LinearMap.finrank_range_of_inj hinj, Module.finrank_fintype_fun_eq_card]

variable (A b) in
/-- The columns span a closed space, so some vector is closest. -/
theorem exists_isMinimiser : ∃ x, IsMinimiser A b x := by
  let K : Submodule ℝ (EuclideanSpace ℝ m) :=
    LinearMap.range ((WithLp.linearEquiv 2 ℝ (m → ℝ)).symm.toLinearMap ∘ₗ A.mulVecLin)
  have hdist : ∀ x : n → ℝ, dist (WithLp.toLp 2 b) (WithLp.toLp 2 (A.mulVec x)) =
      √(residual A b x) := by
    intro x
    rw [EuclideanSpace.dist_eq, residual]
    refine congrArg _ (Finset.sum_congr rfl fun i _ => ?_)
    rw [Real.dist_eq, sq_abs, ← neg_sq, neg_sub]
  obtain ⟨y, ⟨x, rfl⟩, hy⟩ := (Submodule.closed_of_finiteDimensional K).exists_infDist_eq_dist
    ⟨0, K.zero_mem⟩ (WithLp.toLp 2 b)
  refine ⟨x, fun x' => ?_⟩
  have h : dist (WithLp.toLp 2 b) (WithLp.toLp 2 (A.mulVec x)) ≤
      dist (WithLp.toLp 2 b) (WithLp.toLp 2 (A.mulVec x')) :=
    hy.symm.trans_le (Metric.infDist_le_dist_of_mem ⟨x', rfl⟩)
  rw [hdist, hdist] at h
  exact (Real.sqrt_le_sqrt_iff (residual_nonneg x')).mp h

end LeastSquares
