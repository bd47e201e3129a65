import TPC.Analytics.BasisModels
import TPC.Lib.Potential
import Mathlib

/-!
# The field of the default basis

In exact arithmetic every mode of the default basis is, in Cartesian components, the gradient of a
harmonic polynomial.

* `modeVector`: the three functions of one mode; `modeSum_defaultBasis`: the sum over the modes;
* `potential`: the polynomial of a mode; `laplacian_potential`, **`rotated_modeVector`**;
* `reconstruct`: the mode sums at `(r, phi, z)`, rotated through `phi`;
* **`reconstruct_magnetostatic`**: it is a gradient without divergence and curl, at every `r`, and
  a function of the Cartesian point.
-/

namespace TPC.Analytics

open Arith MvPolynomial Potential

/-- The components of mode `k` at a cylindrical point. -/
noncomputable def modeVector (k : ℤ) (r phi z : ℝ) : Fin 3 → ℝ :=
  ![defaultBasisR k r phi z, defaultBasisPhi k r phi z, defaultBasisZ k r phi z]

/-- A vector with cylindrical components, in Cartesian ones. -/
noncomputable def rotated (phi : ℝ) (b : Fin 3 → ℝ) : Fin 3 → ℝ :=
  ![b 0 * Real.cos phi - b 1 * Real.sin phi, b 0 * Real.sin phi + b 1 * Real.cos phi, b 2]

theorem rotated_sum {n : ℕ} (phi : ℝ) (c : Fin n → ℝ) (v : Fin n → Fin 3 → ℝ) :
    rotated phi (∑ k, c k • v k) = ∑ k, c k • rotated phi (v k) := by
  funext i
  fin_cases i <;>
    simp [rotated, Finset.sum_mul, ← Finset.sum_sub_distrib,
      ← Finset.sum_add_distrib, mul_sub, mul_add, mul_assoc]

/-- The Cartesian position of a cylindrical point. -/
noncomputable def position (r phi z : ℝ) : Fin 3 → ℝ := ![r * Real.cos phi, r * Real.sin phi, z]

/-! ## The potentials of the modes -/

/-- The scalar potential of mode `k`. -/
noncomputable def potential (k : ℤ) : MvPolynomial (Fin 3) ℝ :=
  let x := X 0
  let y := X 1
  let z := X 2
  match k with
  | 0 => z
  | 1 => C (1 / 2) * z ^ 2 - C (1 / 4) * (x ^ 2 + y ^ 2)
  | 2 => C (1 / 3) * z ^ 3 - C (1 / 2) * (x ^ 2 + y ^ 2) * z
  | 3 => C (1 / 4) * z ^ 4 - C (3 / 4) * (x ^ 2 + y ^ 2) * z ^ 2 + C (3 / 32) * (x ^ 2 + y ^ 2) ^ 2
  | 4 => x
  | 5 => y
  | 6 => x * z
  | 7 => y * z
  | 8 => C (1 / 2) * (x ^ 2 - y ^ 2)
  | 9 => x * y
  | _ => 0

/-- The Cartesian components of mode `k` at a Cartesian point. -/
noncomputable def cartesianMode (k : ℤ) (p : Fin 3 → ℝ) : Fin 3 → ℝ :=
  let x := p 0
  let y := p 1
  let z := p 2
  match k with
  | 0 => ![0, 0, 1]
  | 1 => ![-x / 2, -y / 2, z]
  | 2 => ![-x * z, -y * z, z ^ 2 - (x ^ 2 + y ^ 2) / 2]
  | 3 => ![(3 / 8 * (x ^ 2 + y ^ 2) - 3 / 2 * z ^ 2) * x, (3 / 8 * (x ^ 2 + y ^ 2) - 3 / 2 * z ^ 2) * y,
      z ^ 3 - 3 / 2 * (x ^ 2 + y ^ 2) * z]
  | 4 => ![1, 0, 0]
  | 5 => ![0, 1, 0]
  | 6 => ![z, 0, x]
  | 7 => ![0, z, y]
  | 8 => ![x, -y, 0]
  | 9 => ![y, x, 0]
  | _ => 0

/-- The rotation of a mode no longer contains the angle. -/
theorem rotated_modeVector (k : Fin 10) (r phi z : ℝ) :
    rotated phi (modeVector k r phi z) = cartesianMode k (position r phi z) := by
  have h := Real.sin_sq_add_cos_sq phi
  have h₂ : (2.0 : ℝ) = 2 := by norm_num
  funext i
  fin_cases k <;> fin_cases i <;>
    simp [rotated, modeVector, defaultBasisR, defaultBasisPhi,
      defaultBasisZ, cartesianMode, position, cos_real, sin_real, h₂, Real.cos_two_mul',
      Real.sin_two_mul]
  all_goals norm_num
  all_goals grind

/-- The gradient of the potential of a mode. -/
theorem eval_pderiv_potential (k : Fin 10) (i : Fin 3) (p : Fin 3 → ℝ) :
    eval p (pderiv i (potential k)) = cartesianMode k p i := by
  fin_cases k <;> fin_cases i <;>
    simp [potential, cartesianMode, pderiv_X] <;> ring

/-- Every potential is harmonic. -/
theorem laplacian_potential (k : Fin 10) : laplacian (potential k) = 0 := by
  have hnum : ∀ (i : Fin 3) (n : ℕ) [n.AtLeastTwo],
      pderiv i (OfNat.ofNat n : MvPolynomial (Fin 3) ℝ) = 0 := fun i n _ =>
    (congrArg (pderiv i) (map_ofNat C n).symm).trans pderiv_C
  refine MvPolynomial.funext fun p => ?_
  fin_cases k <;> simp [laplacian, potential, Fin.sum_univ_succ, pderiv_X, hnum]
  all_goals ring

/-! ## The field of a coefficient vector -/

section Field

variable (c : Fin 10 → ℝ)

/-- The mode sums at a cylindrical point, rotated through its angle. -/
noncomputable def reconstruct (c : Fin 10 → ℝ) (r phi z : ℝ) : Call (Fin 3 → ℝ) := do
  let b ← modeSum defaultBasis (List.ofFn c) defaultModesCount (toArray (r, phi, z))
  return rotated phi b

theorem defaultBasis_eq : (defaultBasis : List (HeaderFunction ℝ)) =
    List.ofFn fun i => ofModel fun k r phi z => modeVector k r phi z i := by
  simp [defaultBasis, modeVector, List.ofFn_succ]

theorem foldl_add_eq_sum (g : ℕ → ℝ) (n : ℕ) :
    (List.range n).foldl (fun a k => a + g k) 0 = ∑ k : Fin n, g k := by
  induction n with
  | zero => rfl
  | succ n ih =>
    rw [List.range_succ, List.foldl_append, ih, Fin.sum_univ_castSucc]
    rfl

/-- The mode sums are linear combinations of the modes. -/
theorem modeSum_defaultBasis (r phi z : ℝ) :
    modeSum defaultBasis (List.ofFn c) defaultModesCount (toArray (r, phi, z)) =
      .ok (∑ k : Fin 10, c k • modeVector k r phi z) := by
  have hlen : defaultModesCount ≤ (List.ofFn c).length := by rw [List.length_ofFn]; exact le_rfl
  have hint : ∀ k : Fin 10, toInt k = k := by decide
  have h := modeSum_ofFun (fun i k r phi z => modeVector (toInt k) r phi z i)
    (toArray (r, phi, z)) hlen
  rw [defaultBasis_eq]
  refine h.trans ?_
  congr 1
  funext i
  rw [foldl_add_eq_sum, Finset.sum_apply]
  refine Finset.sum_congr rfl fun (k : Fin 10) _ => ?_
  have hc : (List.ofFn c).getD k 0 = c k := by
    rw [List.getD_eq_getElem?_getD, List.getElem?_ofFn, dif_pos k.isLt, Option.getD_some]
  rw [hint, hc]
  rfl

/-- The potential of a coefficient vector. -/
noncomputable def totalPotential : MvPolynomial (Fin 3) ℝ := ∑ k : Fin 10, C (c k) * potential k

theorem laplacian_totalPotential : laplacian (totalPotential c) = 0 := by
  have h : ∀ k : Fin 10, laplacian (C (c k) * potential k) = 0 := by
    intro k
    have hk := laplacian_potential k
    simp only [laplacian, pderiv_C_mul] at hk ⊢
    rw [← Finset.mul_sum, hk, mul_zero]
  have hsum : laplacian (totalPotential c) = ∑ k : Fin 10, laplacian (C (c k) * potential k) := by
    simp only [laplacian, totalPotential, map_sum]
    exact Finset.sum_comm
  rw [hsum, Finset.sum_eq_zero fun k _ => h k]

theorem gradient_totalPotential (p : Fin 3 → ℝ) : gradient (fun q => eval q (totalPotential c)) p =
    ∑ k : Fin 10, c k • cartesianMode k p := by
  rw [gradient_eval]
  funext i
  rw [Finset.sum_apply, totalPotential, map_sum, map_sum]
  refine Finset.sum_congr rfl fun k _ => ?_
  rw [pderiv_C_mul, eval_mul, eval_C, eval_pderiv_potential, Pi.smul_apply, smul_eq_mul]

/-- The reconstructed vector is the gradient at the Cartesian point. -/
theorem reconstruct_eq (r phi z : ℝ) : reconstruct c r phi z =
    .ok (gradient (fun q => eval q (totalPotential c)) (position r phi z)) := by
  rw [reconstruct, modeSum_defaultBasis, Fold.ok_bind, gradient_totalPotential, rotated_sum]
  simp only [rotated_modeVector]
  rfl

/-- **The default basis makes magnetostatic fields.** For every coefficient vector there is a
harmonic polynomial whose gradient is the reconstructed vector, at every `r`, `phi`, `z`. The
gradient has no divergence and no curl, and the vector depends on the Cartesian point alone. -/
theorem reconstruct_magnetostatic (c : Fin 10 → ℝ) : ∃ P : MvPolynomial (Fin 3) ℝ,
    laplacian P = 0 ∧
    (∀ r phi z, reconstruct c r phi z = .ok (gradient (fun q => eval q P) (position r phi z))) ∧
    (∀ p, divergence (gradient fun q => eval q P) p = 0) ∧
    (∀ i j p, curl (gradient fun q => eval q P) i j p = 0) ∧
    ∀ r phi z r' phi' z', position r phi z = position r' phi' z' →
      reconstruct c r phi z = reconstruct c r' phi' z' := by
  have hlap := laplacian_totalPotential c
  refine ⟨totalPotential c, hlap, reconstruct_eq c, fun p => ?_, curl_gradient_eval _, ?_⟩
  · rw [divergence_gradient_eval, hlap, map_zero]
  · intro r phi z r' phi' z' h
    rw [reconstruct_eq, reconstruct_eq, h]

end Field

end TPC.Analytics
