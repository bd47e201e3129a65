import TPC.Lib.NormalEquations

/-!
# Truncated singular value decompositions

Solving a linear system with the large singular values of its matrix only.

* `IsOrthonormal`, `IsOrthonormal.bessel`;
* `Decomposition`, `Keeps`, `solve`, `space`;
* `solve_mem_space`, `solve_normal`, **`eq_solve`**: the solution is the only one of the kept
  directions that satisfies their normal equations;
* `sq_add`, `sq_le`, `mul_sq_le`: how large what is fitted is, and the solution;
* `isMinimiser_solve`, `keeps_of_bounds`: when nothing is left out;
* `Carries`, **`Carries.map_solve`**: the solution does not depend on the decomposition;
* `exists_decomposition`.
-/

namespace TruncatedSVD

open LeastSquares

/-! ## Orthonormal families -/

/-- Unit vectors that are orthogonal to each other. -/
structure IsOrthonormal {ι k : Type} [Fintype k] (w : ι → k → ℝ) : Prop where
  unit : ∀ i, w i ⬝ᵥ w i = 1
  orthogonal : ∀ i j, i ≠ j → w i ⬝ᵥ w j = 0

namespace IsOrthonormal

variable {ι k : Type} [Fintype k] {w : ι → k → ℝ}

theorem dotProduct_combination (h : IsOrthonormal w) {s : Finset ι} (a : ι → ℝ) {i : ι} (hi : i ∈ s) :
    w i ⬝ᵥ ∑ j ∈ s, a j • w j = a i := by
  rw [dotProduct_sum, Finset.sum_eq_single_of_mem i hi]
  · rw [dotProduct_smul, h.unit, smul_eq_mul, mul_one]
  · intro j _ hj
    rw [dotProduct_smul, h.orthogonal i j hj.symm, smul_zero]

theorem combination_dotProduct (h : IsOrthonormal w) (s : Finset ι) (a c : ι → ℝ) :
    (∑ j ∈ s, a j • w j) ⬝ᵥ (∑ j ∈ s, c j • w j) = ∑ j ∈ s, a j * c j := by
  rw [sum_dotProduct]
  refine Finset.sum_congr rfl fun i hi => ?_
  rw [smul_dotProduct, h.dotProduct_combination c hi, smul_eq_mul]

/-- The components of a vector are not longer than it. -/
theorem bessel [Fintype ι] (h : IsOrthonormal w) (b : k → ℝ) : ∑ i, (w i ⬝ᵥ b) ^ 2 ≤ b ⬝ᵥ b := by
  have hcross : b ⬝ᵥ ∑ i, (w i ⬝ᵥ b) • w i = ∑ i, (w i ⬝ᵥ b) ^ 2 := by
    rw [dotProduct_sum]
    refine Finset.sum_congr rfl fun i _ => ?_
    rw [dotProduct_smul, dotProduct_comm b, smul_eq_mul, sq]
  have hnonneg : 0 ≤ (b - ∑ i, (w i ⬝ᵥ b) • w i) ⬝ᵥ (b - ∑ i, (w i ⬝ᵥ b) • w i) :=
    Finset.sum_nonneg fun _ _ => mul_self_nonneg _
  rw [sub_dotProduct, dotProduct_sub, dotProduct_sub, h.combination_dotProduct,
    dotProduct_comm (∑ i, (w i ⬝ᵥ b) • w i) b, hcross] at hnonneg
  simp only [← sq] at hnonneg
  linarith

end IsOrthonormal

/-! ## Decompositions -/

variable {m n m' n' ι κ : Type} [Fintype m] [Fintype n] [Fintype m'] [Fintype n'] [Fintype ι] [Fintype κ]

/-- A singular value decomposition: the left vectors, the singular values, the right vectors. -/
structure Decomposition (A : Matrix m n ℝ) (ι : Type) [Fintype ι] where
  u : ι → m → ℝ
  σ : ι → ℝ
  v : ι → n → ℝ
  left : IsOrthonormal u
  right : IsOrthonormal v
  nonneg : ∀ i, 0 ≤ σ i
  eq_sum : A = ∑ i, σ i • Matrix.vecMulVec (u i) (v i)

/-- A right singular vector. -/
def IsSingular (A : Matrix m n ℝ) (s : ℝ) (w : n → ℝ) : Prop :=
  ∀ z, A.mulVec w ⬝ᵥ A.mulVec z = s ^ 2 * (w ⬝ᵥ z)

namespace Decomposition

variable {A : Matrix m n ℝ} {A' : Matrix m' n' ℝ} (S : Decomposition A ι) (S' : Decomposition A' κ) (t : ℝ)
  (b : m → ℝ) (b' : m' → ℝ)

/-- A singular value is kept when it is larger than `t` times the largest one. -/
def Keeps (i : ι) : Prop := ∀ j, t * S.σ j < S.σ i

open Classical in
/-- The solution with the singular values that are kept. -/
noncomputable def solve : n → ℝ := ∑ i with S.Keeps t i, ((S.σ i)⁻¹ * (S.u i ⬝ᵥ b)) • S.v i

/-- The combinations of the right vectors that are kept. -/
def space : Submodule ℝ (n → ℝ) := Submodule.span ℝ (Set.image S.v {i | S.Keeps t i})

variable {t b b'}

theorem σ_pos {i : ι} (h : S.Keeps t i) : 0 < S.σ i := by
  refine (S.nonneg i).lt_of_ne fun hi => ?_
  have hlt := h i
  rw [← hi, mul_zero] at hlt
  exact lt_irrefl _ hlt

theorem mulVec_eq (x : n → ℝ) : A.mulVec x = ∑ i, (S.σ i * (S.v i ⬝ᵥ x)) • S.u i := by
  nth_rewrite 1 [S.eq_sum]
  rw [Matrix.sum_mulVec]
  refine Finset.sum_congr rfl fun i _ => ?_
  rw [Matrix.smul_mulVec, Matrix.vecMulVec_mulVec, mul_smul, op_smul_eq_smul]

theorem mulVec_v (i : ι) : A.mulVec (S.v i) = S.σ i • S.u i := by
  rw [S.mulVec_eq, Finset.sum_eq_single i]
  · rw [S.right.unit, mul_one]
  · intro j _ hj
    rw [S.right.orthogonal j i hj, mul_zero, zero_smul]
  · simp

theorem mulVec_dotProduct (x : n → ℝ) (b : m → ℝ) :
    A.mulVec x ⬝ᵥ b = ∑ i, S.σ i * (S.v i ⬝ᵥ x) * (S.u i ⬝ᵥ b) := by
  rw [S.mulVec_eq, sum_dotProduct]
  simp only [smul_dotProduct, smul_eq_mul]

theorem u_dotProduct_mulVec (x : n → ℝ) (i : ι) : S.u i ⬝ᵥ A.mulVec x = S.σ i * (S.v i ⬝ᵥ x) := by
  rw [S.mulVec_eq]
  exact S.left.dotProduct_combination _ (Finset.mem_univ i)

theorem mulVec_dotProduct_mulVec (x y : n → ℝ) :
    A.mulVec x ⬝ᵥ A.mulVec y = ∑ i, S.σ i ^ 2 * ((S.v i ⬝ᵥ x) * (S.v i ⬝ᵥ y)) := by
  rw [S.mulVec_dotProduct]
  refine Finset.sum_congr rfl fun i _ => ?_
  rw [S.u_dotProduct_mulVec]
  ring

/-! ## The solution -/

theorem v_dotProduct_solve {i : ι} (h : S.Keeps t i) : S.v i ⬝ᵥ S.solve t b = (S.σ i)⁻¹ * (S.u i ⬝ᵥ b) := by
  classical
  exact S.right.dotProduct_combination _ (Finset.mem_filter.mpr ⟨Finset.mem_univ i, h⟩)

theorem solve_mem_space : S.solve t b ∈ S.space t := by
  classical
  exact Submodule.sum_mem _ fun i hi => Submodule.smul_mem _ _
    (Submodule.subset_span ⟨i, (Finset.mem_filter.mp hi).2, rfl⟩)

/-- The error has no component along a left vector that is kept. -/
theorem u_dotProduct_error {i : ι} (h : S.Keeps t i) : S.u i ⬝ᵥ (A.mulVec (S.solve t b) - b) = 0 := by
  rw [dotProduct_sub, S.u_dotProduct_mulVec, S.v_dotProduct_solve h, mul_inv_cancel_left₀ (S.σ_pos h).ne', sub_self]

theorem solve_normal {d : n → ℝ} (hd : d ∈ S.space t) : A.mulVec d ⬝ᵥ (A.mulVec (S.solve t b) - b) = 0 := by
  induction hd using Submodule.span_induction with
  | mem d hd =>
    obtain ⟨i, hi, rfl⟩ := hd
    rw [S.mulVec_v, smul_dotProduct, S.u_dotProduct_error hi, smul_zero]
  | zero => rw [Matrix.mulVec_zero, zero_dotProduct]
  | add d e _ _ ihd ihe => rw [Matrix.mulVec_add, add_dotProduct, ihd, ihe, add_zero]
  | smul a d _ ih => rw [Matrix.mulVec_smul, smul_dotProduct, ih, smul_zero]

theorem eq_zero_of_mem_space {d : n → ℝ} (hd : d ∈ S.space t) (h : A.mulVec d = 0) : d = 0 := by
  have hkept : ∀ i, S.Keeps t i → S.v i ⬝ᵥ d = 0 := by
    intro i hi
    have hu := S.u_dotProduct_mulVec d i
    rw [h, dotProduct_zero] at hu
    exact (mul_eq_zero.mp hu.symm).resolve_left (S.σ_pos hi).ne'
  have hself : ∀ e ∈ S.space t, e ⬝ᵥ d = 0 := by
    intro e he
    induction he using Submodule.span_induction with
    | mem e he =>
      obtain ⟨i, hi, rfl⟩ := he
      exact hkept i hi
    | zero => rw [zero_dotProduct]
    | add e f _ _ ihe ihf => rw [add_dotProduct, ihe, ihf, add_zero]
    | smul a e _ ih => rw [smul_dotProduct, ih, smul_zero]
  exact dotProduct_self_eq_zero.mp (hself d hd)

/-- **The solution is the only one of the kept directions that satisfies their normal equations.** -/
theorem eq_solve {x : n → ℝ} (hx : x ∈ S.space t)
    (hnormal : ∀ d ∈ S.space t, A.mulVec d ⬝ᵥ (A.mulVec x - b) = 0) : x = S.solve t b := by
  have hmem : x - S.solve t b ∈ S.space t := Submodule.sub_mem _ hx S.solve_mem_space
  refine sub_eq_zero.mp (S.eq_zero_of_mem_space hmem ?_)
  have h := hnormal _ hmem
  have h' := S.solve_normal (b := b) hmem
  rw [← sub_eq_zero, ← dotProduct_self_eq_zero]
  have hdiff : A.mulVec (x - S.solve t b) = (A.mulVec x - b) - (A.mulVec (S.solve t b) - b) := by
    rw [Matrix.mulVec_sub, sub_sub_sub_cancel_right]
  rw [sub_zero]
  nth_rewrite 2 [hdiff]
  rw [dotProduct_sub, h, h', sub_zero]

/-- What is fitted and the error make up the values. -/
theorem sq_add : b ⬝ᵥ b = A.mulVec (S.solve t b) ⬝ᵥ A.mulVec (S.solve t b) + residual A b (S.solve t b) := by
  have h := S.solve_normal (b := b) (S.solve_mem_space (t := t) (b := b))
  rw [dotProduct_sub, sub_eq_zero] at h
  rw [residual_eq, sub_dotProduct, dotProduct_sub, dotProduct_sub, h, dotProduct_comm b (A.mulVec (S.solve t b))]
  ring

/-- What is fitted is not longer than the values. -/
theorem sq_le : A.mulVec (S.solve t b) ⬝ᵥ A.mulVec (S.solve t b) ≤ b ⬝ᵥ b := by
  have hsplit := S.sq_add (t := t) (b := b)
  have hnonneg := residual_nonneg (A := A) (b := b) (S.solve t b)
  linarith

theorem solve_dotProduct_solve [DecidablePred (S.Keeps t)] :
    S.solve t b ⬝ᵥ S.solve t b = ∑ i with S.Keeps t i, ((S.σ i)⁻¹ * (S.u i ⬝ᵥ b)) ^ 2 := by
  rw [solve, S.right.combination_dotProduct]
  simp only [← sq]
  exact Finset.sum_congr (by congr) fun _ _ => rfl

/-- The largest singular value bounds the solution from above. -/
theorem σ_mul_sq_le (ht : 0 ≤ t) (j : ι) : (t * S.σ j) ^ 2 * (S.solve t b ⬝ᵥ S.solve t b) ≤ b ⬝ᵥ b := by
  classical
  have hterm : ∀ i, S.Keeps t i → (t * S.σ j) ^ 2 * ((S.σ i)⁻¹ * (S.u i ⬝ᵥ b)) ^ 2 ≤ (S.u i ⬝ᵥ b) ^ 2 := by
    intro i hi
    have hratio : (t * S.σ j / S.σ i) ^ 2 ≤ 1 := by
      have hle : t * S.σ j / S.σ i ≤ 1 := (div_le_one (S.σ_pos hi)).mpr (hi j).le
      exact pow_le_one₀ (div_nonneg (mul_nonneg ht (S.nonneg j)) (S.nonneg i)) hle
    calc (t * S.σ j) ^ 2 * ((S.σ i)⁻¹ * (S.u i ⬝ᵥ b)) ^ 2
        = (t * S.σ j / S.σ i) ^ 2 * (S.u i ⬝ᵥ b) ^ 2 := by ring
      _ ≤ (S.u i ⬝ᵥ b) ^ 2 := mul_le_of_le_one_left (sq_nonneg _) hratio
  rw [S.solve_dotProduct_solve, Finset.mul_sum]
  calc ∑ i with S.Keeps t i, (t * S.σ j) ^ 2 * ((S.σ i)⁻¹ * (S.u i ⬝ᵥ b)) ^ 2
      ≤ ∑ i with S.Keeps t i, (S.u i ⬝ᵥ b) ^ 2 :=
        Finset.sum_le_sum fun i hi => hterm i (Finset.mem_filter.mp hi).2
    _ ≤ ∑ i, (S.u i ⬝ᵥ b) ^ 2 :=
        Finset.sum_le_sum_of_subset_of_nonneg (Finset.filter_subset _ _) fun _ _ _ => sq_nonneg _
    _ ≤ b ⬝ᵥ b := S.left.bessel b

/-- The same bound, against any vector. -/
theorem mul_sq_le (ht : 0 ≤ t) (y : n → ℝ) :
    t ^ 2 * (A.mulVec y ⬝ᵥ A.mulVec y) * (S.solve t b ⬝ᵥ S.solve t b) ≤ (b ⬝ᵥ b) * (y ⬝ᵥ y) := by
  calc t ^ 2 * (A.mulVec y ⬝ᵥ A.mulVec y) * (S.solve t b ⬝ᵥ S.solve t b)
      = ∑ j, (t * S.σ j) ^ 2 * (S.solve t b ⬝ᵥ S.solve t b) * (S.v j ⬝ᵥ y) ^ 2 := by
        rw [S.mulVec_dotProduct_mulVec, Finset.mul_sum, Finset.sum_mul]
        exact Finset.sum_congr rfl fun j _ => by ring
    _ ≤ ∑ j, (b ⬝ᵥ b) * (S.v j ⬝ᵥ y) ^ 2 :=
        Finset.sum_le_sum fun j _ => mul_le_mul_of_nonneg_right (S.σ_mul_sq_le ht j) (sq_nonneg _)
    _ ≤ (b ⬝ᵥ b) * (y ⬝ᵥ y) := by
        rw [← Finset.mul_sum]
        exact mul_le_mul_of_nonneg_left (S.right.bessel y) (Finset.sum_nonneg fun _ _ => mul_self_nonneg _)

/-! ## When nothing is left out -/

theorem isMinimiser_solve (h : ∀ i, S.σ i ≠ 0 → S.Keeps t i) : IsMinimiser A b (S.solve t b) := by
  refine isMinimiser_iff.mpr fun d => ?_
  rw [S.mulVec_dotProduct]
  refine Finset.sum_eq_zero fun i _ => ?_
  by_cases hi : S.σ i = 0
  · rw [hi, zero_mul, zero_mul]
  · rw [S.u_dotProduct_error (h i hi), mul_zero]

theorem keeps_zero {i : ι} (h : S.σ i ≠ 0) : S.Keeps 0 i := fun j => by
  rw [zero_mul]
  exact (S.nonneg i).lt_of_ne' h

/-- A threshold below the condition of the matrix leaves nothing out. -/
theorem keeps_of_bounds {c C : ℝ} (hlower : ∀ x, c * (x ⬝ᵥ x) ≤ A.mulVec x ⬝ᵥ A.mulVec x)
    (hupper : ∀ x, A.mulVec x ⬝ᵥ A.mulVec x ≤ C * (x ⬝ᵥ x)) (h : t ^ 2 * C < c) (i : ι) : S.Keeps t i := by
  intro j
  have hσ : ∀ k, A.mulVec (S.v k) ⬝ᵥ A.mulVec (S.v k) = S.σ k ^ 2 := by
    intro k
    rw [S.mulVec_v, smul_dotProduct, dotProduct_smul, S.left.unit, smul_eq_mul, smul_eq_mul, mul_one, sq]
  have hi := hlower (S.v i)
  have hj := hupper (S.v j)
  rw [hσ, S.right.unit, mul_one] at hi hj
  refine lt_of_pow_lt_pow_left₀ 2 (S.nonneg i) ?_
  calc (t * S.σ j) ^ 2 = t ^ 2 * S.σ j ^ 2 := mul_pow _ _ _
    _ ≤ t ^ 2 * C := mul_le_mul_of_nonneg_left hj (sq_nonneg t)
    _ < c := h
    _ ≤ S.σ i ^ 2 := hi

/-! ## Independence of the decomposition -/

theorem isSingular_v (i : ι) : IsSingular A (S.σ i) (S.v i) := by
  intro z
  rw [S.mulVec_v, smul_dotProduct, S.u_dotProduct_mulVec, smul_eq_mul]
  ring

variable {S} {s : ℝ} {w : n → ℝ}

theorem σ_eq (hw : IsSingular A s w) (hs : 0 ≤ s) {j : ι} (hj : S.v j ⬝ᵥ w ≠ 0) : S.σ j = s := by
  have h : S.σ j ^ 2 * (S.v j ⬝ᵥ w) = s ^ 2 * (S.v j ⬝ᵥ w) := by
    rw [← S.isSingular_v j w, dotProduct_comm, hw, dotProduct_comm w]
  exact (pow_left_inj₀ (S.nonneg j) hs two_ne_zero).mp (mul_right_cancel₀ hj h)

variable (S) in
theorem eq_combination (hw : IsSingular A s w) (hs : 0 < s) : w = ∑ j, (S.v j ⬝ᵥ w) • S.v j := by
  refine dotProduct_eq _ _ fun z => mul_left_cancel₀ (pow_ne_zero 2 hs.ne') ?_
  rw [← hw z, S.mulVec_dotProduct_mulVec, sum_dotProduct, Finset.mul_sum]
  refine Finset.sum_congr rfl fun j _ => ?_
  rw [smul_dotProduct, smul_eq_mul]
  by_cases hj : S.v j ⬝ᵥ w = 0
  · rw [hj, zero_mul, mul_zero, mul_zero]
  · rw [σ_eq hw hs.le hj]

theorem mem_space (hw : IsSingular A s w) (hs : 0 < s) (hkeep : ∀ j, t * S.σ j < s) : w ∈ S.space t := by
  rw [S.eq_combination hw hs]
  refine Submodule.sum_mem _ fun j _ => ?_
  by_cases hj : S.v j ⬝ᵥ w = 0
  · rw [hj, zero_smul]
    exact Submodule.zero_mem _
  · have hσ := σ_eq hw hs.le hj
    exact Submodule.smul_mem _ _ (Submodule.subset_span ⟨j, fun k => hσ ▸ hkeep k, rfl⟩)

variable (S) in
theorem exists_σ_eq (hw : IsSingular A s w) (hs : 0 < s) (hne : w ≠ 0) : ∃ j, S.σ j = s := by
  by_contra hnone
  apply hne
  rw [S.eq_combination hw hs]
  refine Finset.sum_eq_zero fun j _ => ?_
  have hj : S.v j ⬝ᵥ w = 0 := by
    by_contra hj
    exact hnone ⟨j, σ_eq hw hs.le hj⟩
  rw [hj, zero_smul]

end Decomposition

/-- A change of coordinates that keeps all products, and takes one matrix to the other. -/
structure Carries (A : Matrix m n ℝ) (A' : Matrix m' n' ℝ) (e : (n → ℝ) ≃ₗ[ℝ] (n' → ℝ)) : Prop where
  dot : ∀ x y, e x ⬝ᵥ e y = x ⬝ᵥ y
  gram : ∀ x y, A'.mulVec (e x) ⬝ᵥ A'.mulVec (e y) = A.mulVec x ⬝ᵥ A.mulVec y

namespace Carries

open Decomposition

variable {A : Matrix m n ℝ} {A' : Matrix m' n' ℝ} {e : (n → ℝ) ≃ₗ[ℝ] (n' → ℝ)} {t : ℝ} {b : m → ℝ} {b' : m' → ℝ}

theorem symm (h : Carries A A' e) : Carries A' A e.symm where
  dot x y := by
    have hdot := h.dot (e.symm x) (e.symm y)
    rwa [e.apply_symm_apply, e.apply_symm_apply, eq_comm] at hdot
  gram x y := by
    have hgram := h.gram (e.symm x) (e.symm y)
    rwa [e.apply_symm_apply, e.apply_symm_apply, eq_comm] at hgram

theorem isSingular (h : Carries A A' e) {s : ℝ} {w : n → ℝ} (hw : IsSingular A s w) : IsSingular A' s (e w) := by
  intro z
  obtain ⟨z, rfl⟩ := e.surjective z
  rw [h.gram, h.dot, hw]

theorem map_mem_space (h : Carries A A' e) (S : Decomposition A ι) (S' : Decomposition A' κ) {d : n → ℝ}
    (hd : d ∈ S.space t) : e d ∈ S'.space t := by
  induction hd using Submodule.span_induction with
  | mem d hd =>
    obtain ⟨i, hi, rfl⟩ := hd
    refine mem_space (h.isSingular (S.isSingular_v i)) (S.σ_pos hi) fun j => ?_
    rcases (S'.nonneg j).eq_or_lt with hj | hj
    · rw [← hj, mul_zero]
      exact S.σ_pos hi
    · -- The values of the other decomposition are values of this one, so that the largest is the same.
      have hne : e.symm (S'.v j) ≠ 0 := by
        intro hzero
        have hunit := h.symm.dot (S'.v j) (S'.v j)
        rw [hzero, zero_dotProduct, S'.right.unit] at hunit
        exact zero_ne_one hunit
      obtain ⟨k, hk⟩ := S.exists_σ_eq (h.symm.isSingular (S'.isSingular_v j)) hj hne
      rw [← hk]
      exact hi k
  | zero =>
    rw [map_zero]
    exact Submodule.zero_mem _
  | add d d' _ _ ih ih' =>
    rw [map_add]
    exact Submodule.add_mem _ ih ih'
  | smul a d _ ih =>
    rw [map_smul]
    exact Submodule.smul_mem _ a ih

/-- **The solution does not depend on the decomposition**, and moves with the coordinates. -/
theorem map_solve (h : Carries A A' e) (hb : ∀ x, A'.mulVec (e x) ⬝ᵥ b' = A.mulVec x ⬝ᵥ b)
    (S : Decomposition A ι) (S' : Decomposition A' κ) : e (S.solve t b) = S'.solve t b' := by
  refine S'.eq_solve (h.map_mem_space S S' S.solve_mem_space) fun d hd => ?_
  have hd' := h.symm.map_mem_space S' S hd
  obtain ⟨d, rfl⟩ := e.surjective d
  rw [e.symm_apply_apply] at hd'
  rw [dotProduct_sub, h.gram, hb, ← dotProduct_sub]
  exact S.solve_normal hd'

theorem refl {A'' : Matrix m' n ℝ} (h : ∀ x y, A''.mulVec x ⬝ᵥ A''.mulVec y = A.mulVec x ⬝ᵥ A.mulVec y) :
    Carries A A'' (LinearEquiv.refl ℝ (n → ℝ)) := ⟨fun _ _ => rfl, h⟩

end Carries

/-! ## Existence -/

/-- Another index type. -/
def Decomposition.reindex {A : Matrix m n ℝ} (S : Decomposition A ι) (e : κ ≃ ι) : Decomposition A κ where
  u := S.u ∘ e
  σ := S.σ ∘ e
  v := S.v ∘ e
  left := ⟨fun i => S.left.unit (e i), fun _ _ h => S.left.orthogonal _ _ (e.injective.ne h)⟩
  right := ⟨fun i => S.right.unit (e i), fun _ _ h => S.right.orthogonal _ _ (e.injective.ne h)⟩
  nonneg i := S.nonneg (e i)
  eq_sum := S.eq_sum.trans (e.sum_comp fun i => S.σ i • Matrix.vecMulVec (S.u i) (S.v i)).symm

/-- Singular vectors that span all vectors make a decomposition. -/
noncomputable def Decomposition.ofSingular {A : Matrix m n ℝ} {σ : ι → ℝ} {w : ι → n → ℝ} (hσ : ∀ i, 0 ≤ σ i)
    (hw : IsOrthonormal w) (hspan : ∀ x, ∑ i, (w i ⬝ᵥ x) • w i = x)
    (hsing : ∀ i, IsSingular A (σ i) (w i)) : Decomposition A {i // σ i ≠ 0} where
  u i := (σ i)⁻¹ • A.mulVec (w i)
  σ i := σ i
  v i := w i
  left := by
    constructor
    · intro i
      rw [smul_dotProduct, dotProduct_smul, hsing, hw.unit, mul_one, smul_eq_mul, smul_eq_mul]
      field_simp [i.2]
    · intro i j hij
      rw [smul_dotProduct, dotProduct_smul, hsing, hw.orthogonal _ _ (Subtype.coe_injective.ne hij), mul_zero,
        smul_zero, smul_zero]
  right := ⟨fun i => hw.unit i, fun _ _ hij => hw.orthogonal _ _ (Subtype.coe_injective.ne hij)⟩
  nonneg i := hσ i
  eq_sum := by
    have hzero : ∀ i, σ i = 0 → A.mulVec (w i) = 0 := by
      intro i hi
      rw [← dotProduct_self_eq_zero, hsing, hi, zero_pow two_ne_zero, zero_mul]
    have hterm : ∀ (i : {i // σ i ≠ 0}) (x : n → ℝ),
        (σ i • Matrix.vecMulVec ((σ i)⁻¹ • A.mulVec (w i)) (w i)).mulVec x = (w i ⬝ᵥ x) • A.mulVec (w i) := by
      intro i x
      rw [Matrix.smul_mulVec, Matrix.vecMulVec_mulVec, op_smul_eq_smul, smul_comm, smul_inv_smul₀ i.2]
    refine Matrix.mulVec_injective (funext fun x => ?_)
    rw [Matrix.sum_mulVec]
    simp only [hterm]
    nth_rewrite 1 [← hspan x]
    rw [Matrix.mulVec_sum]
    simp only [Matrix.mulVec_smul]
    have hkept : ∑ i with σ i ≠ 0, (w i ⬝ᵥ x) • A.mulVec (w i) =
        ∑ i : {i // σ i ≠ 0}, (w i ⬝ᵥ x) • A.mulVec (w i) := Finset.sum_subtype _ (by simp) _
    rw [← hkept, eq_comm]
    apply Finset.sum_filter_of_ne
    intro i _ hne hi
    exact hne (by rw [hzero i hi, smul_zero])

/-- **Every matrix has a decomposition**: its right vectors are eigenvectors of the matrix of products. -/
theorem exists_decomposition (A : Matrix m n ℝ) : ∃ k : ℕ, Nonempty (Decomposition A (Fin k)) := by
  classical
  have hA := Matrix.isHermitian_conjTranspose_mul_self A
  have hortho : IsOrthonormal fun i => (hA.eigenvectorBasis i : n → ℝ) := by
    have h := orthonormal_iff_ite.mp hA.eigenvectorBasis.orthonormal
    simp only [EuclideanSpace.inner_eq_star_dotProduct, star_trivial] at h
    exact ⟨fun i => by simpa using h i i, fun i j hij => by simpa [hij.symm] using h j i⟩
  have hspan : ∀ x : n → ℝ, ∑ i, (hA.eigenvectorBasis i ⬝ᵥ x) • (hA.eigenvectorBasis i : n → ℝ) = x := by
    intro x
    have h := congrArg WithLp.ofLp (hA.eigenvectorBasis.sum_repr' (WithLp.toLp 2 x))
    simpa [EuclideanSpace.inner_eq_star_dotProduct, dotProduct_comm] using h
  have hsing : ∀ i, IsSingular A √(hA.eigenvalues i) (hA.eigenvectorBasis i) := by
    intro i z
    rw [Real.sq_sqrt (Matrix.eigenvalues_conjTranspose_mul_self_nonneg A i)]
    have hprod : ∀ x : n → ℝ, (A.conjTranspose * A).mulVec x ⬝ᵥ z = A.mulVec x ⬝ᵥ A.mulVec z := by
      intro x
      rw [Matrix.conjTranspose_eq_transpose_of_trivial, ← Matrix.mulVec_mulVec, Matrix.mulVec_transpose,
        ← Matrix.dotProduct_mulVec]
    rw [← hprod, hA.mulVec_eigenvectorBasis, smul_dotProduct, smul_eq_mul]
  exact ⟨_, ⟨(Decomposition.ofSingular (fun i => Real.sqrt_nonneg _) hortho hspan hsing).reindex
    (Fintype.equivFin _).symm⟩⟩

end TruncatedSVD
