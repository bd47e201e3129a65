import TPC.Lib.LeastSquares

/-!
# The normal equations

* `residual_add_smul`: the residual along a line;
* **`isMinimiser_iff`**: a vector is a minimiser when its error is orthogonal to the column space;
* `IsMinimiser.sq_add`: what is fitted and the error make up the values;
* `IsMinimiser.unique`: with full column rank there is one minimiser.
-/

namespace LeastSquares

variable {m n : Type} [Fintype m] [Fintype n] {A : Matrix m n ℝ} {b : m → ℝ} {x y : n → ℝ}

theorem residual_eq (x : n → ℝ) : residual A b x = (A.mulVec x - b) ⬝ᵥ (A.mulVec x - b) :=
  Finset.sum_congr rfl fun i _ => sq (A.mulVec x i - b i)

theorem residual_add_smul (x d : n → ℝ) (t : ℝ) : residual A b (x + t • d) =
    A.mulVec d ⬝ᵥ A.mulVec d * (t * t) +
      (A.mulVec d ⬝ᵥ (A.mulVec x - b) + A.mulVec d ⬝ᵥ (A.mulVec x - b)) * t + residual A b x := by
  have hsum : A.mulVec (x + t • d) - b = (A.mulVec x - b) + t • A.mulVec d := by
    rw [Matrix.mulVec_add, Matrix.mulVec_smul]
    abel
  rw [residual_eq, residual_eq, hsum, add_dotProduct, dotProduct_add, dotProduct_add, smul_dotProduct,
    dotProduct_smul, dotProduct_smul, smul_dotProduct, dotProduct_comm (A.mulVec x - b) (A.mulVec d)]
  simp only [smul_eq_mul]
  ring

/-- **The normal equations.** -/
theorem isMinimiser_iff : IsMinimiser A b x ↔ ∀ d, A.mulVec d ⬝ᵥ (A.mulVec x - b) = 0 := by
  constructor
  · intro h d
    -- Along the line through `x` the residual is a quadratic that never goes below its value at 0.
    have hline : ∀ t : ℝ, 0 ≤ A.mulVec d ⬝ᵥ A.mulVec d * (t * t) +
        (A.mulVec d ⬝ᵥ (A.mulVec x - b) + A.mulVec d ⬝ᵥ (A.mulVec x - b)) * t + 0 := by
      intro t
      have ht := h (x + t • d)
      rw [residual_add_smul] at ht
      linarith
    have hdiscrim := discrim_le_zero hline
    rw [discrim, mul_zero, sub_zero] at hdiscrim
    have hzero := pow_eq_zero_iff two_ne_zero |>.mp (le_antisymm hdiscrim (sq_nonneg _))
    linarith
  · intro h y
    have hy : y = x + (1 : ℝ) • (y - x) := by rw [one_smul, add_sub_cancel]
    rw [hy, residual_add_smul, h (y - x)]
    have hnonneg : 0 ≤ A.mulVec (y - x) ⬝ᵥ A.mulVec (y - x) :=
      Finset.sum_nonneg fun i _ => mul_self_nonneg _
    linarith

/-- The values split into what is fitted and the error. -/
theorem IsMinimiser.sq_add (h : IsMinimiser A b x) :
    b ⬝ᵥ b = A.mulVec x ⬝ᵥ A.mulVec x + residual A b x := by
  have hx := isMinimiser_iff.mp h x
  rw [dotProduct_sub, sub_eq_zero] at hx
  rw [residual_eq, sub_dotProduct, dotProduct_sub, dotProduct_sub, hx, dotProduct_comm b (A.mulVec x)]
  ring

theorem IsMinimiser.mulVec_eq (h : IsMinimiser A b x) (h' : IsMinimiser A b y) :
    A.mulVec x = A.mulVec y := by
  have hx := isMinimiser_iff.mp h (x - y)
  have hy := isMinimiser_iff.mp h' (x - y)
  have hdiff : A.mulVec (x - y) = (A.mulVec x - b) - (A.mulVec y - b) := by
    rw [Matrix.mulVec_sub, sub_sub_sub_cancel_right]
  have hzero : A.mulVec (x - y) ⬝ᵥ A.mulVec (x - y) = 0 := by
    nth_rewrite 2 [hdiff]
    rw [dotProduct_sub, hx, hy, sub_zero]
  rw [← sub_eq_zero, ← Matrix.mulVec_sub]
  exact dotProduct_self_eq_zero.mp hzero

/-- With full column rank there is one minimiser. -/
theorem IsMinimiser.unique (hA : ∀ x, A.mulVec x = 0 → x = 0) (h : IsMinimiser A b x)
    (h' : IsMinimiser A b y) : x = y := by
  refine sub_eq_zero.mp (hA _ ?_)
  rw [Matrix.mulVec_sub, h.mulVec_eq h', sub_self]

end LeastSquares
