import Mathlib

/-!
# Gradients of polynomials

Scalar and vector fields on `σ → ℝ`, with the partial derivatives of analysis, and polynomial
potentials, with the formal ones.

* `partialAt`, `gradient`, `divergence`, `curl`;
* `partialAt_eval`: the two derivatives of a polynomial agree;
* **`divergence_gradient_eval`**, **`curl_gradient_eval`**: the gradient of a polynomial has the
  Laplacian as its divergence and no curl.
-/

namespace Potential

open MvPolynomial

variable {σ : Type} [DecidableEq σ]

/-- The partial derivative of `f` along coordinate `j`. -/
noncomputable def partialAt (f : (σ → ℝ) → ℝ) (j : σ) (p : σ → ℝ) : ℝ :=
  deriv (fun t => f (Function.update p j t)) (p j)

/-- The vector of partial derivatives. -/
noncomputable def gradient (f : (σ → ℝ) → ℝ) (p : σ → ℝ) : σ → ℝ := fun i => partialAt f i p

noncomputable def divergence [Fintype σ] (B : (σ → ℝ) → σ → ℝ) (p : σ → ℝ) : ℝ :=
  ∑ i, partialAt (fun q => B q i) i p

/-- The curl in the plane of coordinates `i` and `j`: in space, the component across that plane. -/
noncomputable def curl (B : (σ → ℝ) → σ → ℝ) (i j : σ) (p : σ → ℝ) : ℝ :=
  partialAt (fun q => B q j) i p - partialAt (fun q => B q i) j p

/-- The formal Laplacian. -/
noncomputable def laplacian [Fintype σ] (P : MvPolynomial σ ℝ) : MvPolynomial σ ℝ :=
  ∑ i, pderiv i (pderiv i P)

theorem hasDerivAt_eval (P : MvPolynomial σ ℝ) (j : σ) (p : σ → ℝ) (t : ℝ) :
    HasDerivAt (fun t => eval (Function.update p j t) P)
      (eval (Function.update p j t) (pderiv j P)) t := by
  induction P using MvPolynomial.induction_on with
  | C a =>
    simp only [eval_C, pderiv_C, map_zero]
    exact hasDerivAt_const t a
  | add P Q hP hQ =>
    simp only [map_add]
    exact hP.fun_add hQ
  | mul_X P i hP =>
    have hX : HasDerivAt (fun t => Function.update p j t i) (if i = j then 1 else 0) t := by
      by_cases h : i = j
      · subst h
        simp only [Function.update_self, if_true]
        exact hasDerivAt_id' t
      · simp only [Function.update_of_ne h, if_neg h]
        exact hasDerivAt_const t (p i)
    simp only [map_mul, eval_X]
    refine (hP.fun_mul hX).congr_deriv ?_
    by_cases h : i = j
    · subst h
      simp [mul_comm, add_comm]
    · simp [pderiv_X_of_ne h, if_neg h, mul_comm]

@[simp] theorem partialAt_eval (P : MvPolynomial σ ℝ) (j : σ) (p : σ → ℝ) :
    partialAt (fun q => eval q P) j p = eval p (pderiv j P) := by
  have h := (hasDerivAt_eval P j p (p j)).deriv
  rwa [Function.update_eq_self] at h

theorem gradient_eval (P : MvPolynomial σ ℝ) (p : σ → ℝ) :
    gradient (fun q => eval q P) p = fun i => eval p (pderiv i P) :=
  funext fun i => partialAt_eval P i p

theorem pderiv_comm (i j : σ) (P : MvPolynomial σ ℝ) :
    pderiv i (pderiv j P) = pderiv j (pderiv i P) := by
  let D : σ → Derivation ℝ (MvPolynomial σ ℝ) (MvPolynomial σ ℝ) := fun i => pderiv i
  have h : ⁅D i, D j⁆ = 0 := by
    apply derivation_ext
    intro k
    simp [D, Derivation.commutator_apply, pderiv_X, Pi.single_apply, apply_ite]
  have hP : ⁅D i, D j⁆ P = 0 := by rw [h, Derivation.zero_apply]
  rwa [Derivation.commutator_apply, sub_eq_zero] at hP

/-- **The divergence of a polynomial gradient is the Laplacian.** -/
theorem divergence_gradient_eval [Fintype σ] (P : MvPolynomial σ ℝ) (p : σ → ℝ) :
    divergence (gradient fun q => eval q P) p = eval p (laplacian P) := by
  simp [divergence, gradient_eval, laplacian]

/-- **A polynomial gradient has no curl.** -/
theorem curl_gradient_eval (P : MvPolynomial σ ℝ) (i j : σ) (p : σ → ℝ) :
    curl (gradient fun q => eval q P) i j p = 0 := by
  simp only [curl, gradient_eval, partialAt_eval]
  rw [pderiv_comm i j P, sub_self]

end Potential
