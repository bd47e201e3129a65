import TPC.Analytics.Fit

/-!
# Symmetries of the cylinder

Turns about the axis and the two mirrors take mode sums of the default basis to mode sums, so that a
fit does not depend on where the angle starts and which way the axis and the angle run.

* `Motion`, `move`, `carry`, `pull`: a symmetry on positions, on field vectors and on coefficients;
* **`modeTotal_moveAll`**, by induction over the composition;
* `pullAll_dotProduct`, `carryAll_dotProduct`, `pullEquiv`: the products that motions keep;
* `IsDefault`, `exists_defaultMinimiser`: fits with the default basis.
-/

namespace TPC.Analytics

open Arith LeastSquares

/-! ## The components of a mode sum -/

section Components

variable (x : Fin 10 → ℝ) (p : Fin 3 → ℝ)

theorem modeTotal_radial : modeTotal x p 0 = -(p 0 / 2) * x 1 - p 0 * p 2 * x 2 +
    (3 / 8 * p 0 ^ 3 - 3 / 2 * p 0 * p 2 ^ 2) * x 3 + Real.cos (p 1) * x 4 + Real.sin (p 1) * x 5 +
    p 2 * Real.cos (p 1) * x 6 + p 2 * Real.sin (p 1) * x 7 + p 0 * Real.cos (2 * p 1) * x 8 +
    p 0 * Real.sin (2 * p 1) * x 9 := by
  have h₂ : (2.0 : ℝ) = 2 := by norm_num
  simp [modeTotal, Fin.sum_univ_succ, modeVector, defaultBasisR, cos_real, sin_real, h₂]
  ring

theorem modeTotal_azimuthal : modeTotal x p 1 = -Real.sin (p 1) * x 4 + Real.cos (p 1) * x 5 -
    p 2 * Real.sin (p 1) * x 6 + p 2 * Real.cos (p 1) * x 7 - p 0 * Real.sin (2 * p 1) * x 8 +
    p 0 * Real.cos (2 * p 1) * x 9 := by
  have h₂ : (2.0 : ℝ) = 2 := by norm_num
  simp [modeTotal, Fin.sum_univ_succ, modeVector, defaultBasisPhi, cos_real, sin_real, h₂]
  ring

theorem modeTotal_axial : modeTotal x p 2 = x 0 + p 2 * x 1 + (p 2 ^ 2 - p 0 ^ 2 / 2) * x 2 +
    (p 2 ^ 3 - 3 / 2 * p 0 ^ 2 * p 2) * x 3 + p 0 * Real.cos (p 1) * x 6 + p 0 * Real.sin (p 1) * x 7 := by
  simp [modeTotal, Fin.sum_univ_succ, modeVector, defaultBasisZ, cos_real, sin_real]
  ring

end Components

/-! ## Motions -/

/-- The position and the field of a measurement are given in cylindrical components. -/
structure Measurement.Cylindric (y : Measurement ℝ) : Prop where
  point : y.pointComponents.coordinateType = .cylindric
  field : y.fieldComponents.coordinateType = .cylindric

/-- A turn about the axis, the mirror in the central plane, and one in a plane through the axis. -/
inductive Motion
  | turn (angle : ℝ)
  | mirrorZ
  | mirrorPhi

namespace Motion

/-- Where it takes a cylindrical position. -/
noncomputable def move : Motion → (Fin 3 → ℝ) → Fin 3 → ℝ
  | turn angle, p => ![p 0, p 1 + angle, p 2]
  | mirrorZ, p => ![p 0, p 1, -p 2]
  | mirrorPhi, p => ![p 0, -p 1, p 2]

/-- What it makes of the cylindrical components of a vector. -/
noncomputable def carry : Motion → (Fin 3 → ℝ) → Fin 3 → ℝ
  | turn _, b => b
  | mirrorZ, b => ![b 0, b 1, -b 2]
  | mirrorPhi, b => ![b 0, -b 1, b 2]

/-- The coefficients of the field before the motion. -/
noncomputable def pull : Motion → (Fin 10 → ℝ) → Fin 10 → ℝ
  | turn a, x => ![x 0, x 1, x 2, x 3, x 4 * Real.cos a + x 5 * Real.sin a, x 5 * Real.cos a - x 4 * Real.sin a,
      x 6 * Real.cos a + x 7 * Real.sin a, x 7 * Real.cos a - x 6 * Real.sin a,
      x 8 * Real.cos (2 * a) + x 9 * Real.sin (2 * a), x 9 * Real.cos (2 * a) - x 8 * Real.sin (2 * a)]
  | mirrorZ, x => ![-x 0, x 1, -x 2, x 3, x 4, x 5, -x 6, -x 7, x 8, x 9]
  | mirrorPhi, x => ![x 0, x 1, x 2, x 3, x 4, -x 5, x 6, -x 7, x 8, -x 9]

/-- **A moved mode sum is a mode sum.** -/
theorem modeTotal_move (g : Motion) (x : Fin 10 → ℝ) (p : Fin 3 → ℝ) :
    modeTotal x (g.move p) = g.carry (modeTotal (g.pull x) p) := by
  funext i
  cases g with
  | turn a =>
    show modeTotal x ((turn a).move p) i = modeTotal ((turn a).pull x) p i
    fin_cases i
    · simp only [Fin.zero_eta, modeTotal_radial]
      simp [move, pull, mul_add, Real.cos_add, Real.sin_add]
      ring
    · simp only [Fin.mk_one, modeTotal_azimuthal]
      simp [move, pull, mul_add, Real.cos_add, Real.sin_add]
      ring
    · simp only [Fin.reduceFinMk, modeTotal_axial]
      simp [move, pull, Real.cos_add, Real.sin_add]
      ring
  | mirrorZ =>
    fin_cases i
    · show modeTotal x (mirrorZ.move p) 0 = modeTotal (mirrorZ.pull x) p 0
      simp [modeTotal_radial, move, pull]
    · show modeTotal x (mirrorZ.move p) 1 = modeTotal (mirrorZ.pull x) p 1
      simp [modeTotal_azimuthal, move, pull]
    · show modeTotal x (mirrorZ.move p) 2 = -modeTotal (mirrorZ.pull x) p 2
      simp [modeTotal_axial, move, pull]
      ring
  | mirrorPhi =>
    fin_cases i
    · show modeTotal x (mirrorPhi.move p) 0 = modeTotal (mirrorPhi.pull x) p 0
      simp [modeTotal_radial, move, pull]
    · show modeTotal x (mirrorPhi.move p) 1 = -modeTotal (mirrorPhi.pull x) p 1
      simp [modeTotal_azimuthal, move, pull]
      ring
    · show modeTotal x (mirrorPhi.move p) 2 = modeTotal (mirrorPhi.pull x) p 2
      simp [modeTotal_axial, move, pull]

theorem pull_surjective (g : Motion) : Function.Surjective g.pull := by
  intro x
  cases g with
  | turn a =>
    refine ⟨pull (turn (-a)) x, ?_⟩
    have h := Real.sin_sq_add_cos_sq a
    have h' := Real.sin_sq_add_cos_sq (2 * a)
    funext k
    fin_cases k <;> simp [pull] <;> grind
  | mirrorZ =>
    refine ⟨pull mirrorZ x, ?_⟩
    funext k
    fin_cases k <;> simp [pull]
  | mirrorPhi =>
    refine ⟨pull mirrorPhi x, ?_⟩
    funext k
    fin_cases k <;> simp [pull]

theorem pull_combine (g : Motion) (s t : ℝ) (x y : Fin 10 → ℝ) :
    g.pull (s • x + t • y) = s • g.pull x + t • g.pull y := by
  funext k
  cases g <;> fin_cases k <;> simp [pull] <;> ring

theorem pull_dotProduct (g : Motion) (x y : Fin 10 → ℝ) : g.pull x ⬝ᵥ g.pull y = x ⬝ᵥ y := by
  cases g with
  | turn a =>
    have h := Real.sin_sq_add_cos_sq a
    have h' := Real.sin_sq_add_cos_sq (2 * a)
    simp only [dotProduct, Fin.sum_univ_succ, pull]
    simp
    linear_combination (x 4 * y 4 + x 5 * y 5 + x 6 * y 6 + x 7 * y 7) * h + (x 8 * y 8 + x 9 * y 9) * h'
  | mirrorZ => simp [dotProduct, Fin.sum_univ_succ, pull]
  | mirrorPhi => simp [dotProduct, Fin.sum_univ_succ, pull]

theorem carry_dotProduct (g : Motion) (b b' : Fin 3 → ℝ) : ∑ i, g.carry b i * g.carry b' i = ∑ i, b i * b' i := by
  cases g <;> simp [carry, Fin.sum_univ_three]

/-! ## Compositions -/

/-- One after the other, on positions, -/
noncomputable def moveAll (gs : List Motion) (p : Fin 3 → ℝ) : Fin 3 → ℝ := gs.foldl (fun p g => g.move p) p

/-- on vectors, -/
noncomputable def carryAll (gs : List Motion) (b : Fin 3 → ℝ) : Fin 3 → ℝ := gs.foldl (fun b g => g.carry b) b

/-- and back on coefficients. -/
noncomputable def pullAll (gs : List Motion) (x : Fin 10 → ℝ) : Fin 10 → ℝ := gs.foldr pull x

theorem modeTotal_moveAll (gs : List Motion) (x : Fin 10 → ℝ) (p : Fin 3 → ℝ) :
    modeTotal x (moveAll gs p) = carryAll gs (modeTotal (pullAll gs x) p) := by
  induction gs generalizing p with
  | nil => rfl
  | cons g gs ih =>
    show modeTotal x (moveAll gs (g.move p)) = carryAll gs (g.carry (modeTotal (g.pull (pullAll gs x)) p))
    rw [ih, modeTotal_move]

theorem pullAll_surjective (gs : List Motion) : Function.Surjective (pullAll gs) := by
  induction gs with
  | nil => exact Function.surjective_id
  | cons g gs ih => exact g.pull_surjective.comp ih

theorem pullAll_combine (gs : List Motion) (s t : ℝ) (x y : Fin 10 → ℝ) :
    pullAll gs (s • x + t • y) = s • pullAll gs x + t • pullAll gs y := by
  induction gs with
  | nil => rfl
  | cons g gs ih => exact (congrArg g.pull ih).trans (g.pull_combine s t _ _)

theorem pullAll_dotProduct (gs : List Motion) (x y : Fin 10 → ℝ) : pullAll gs x ⬝ᵥ pullAll gs y = x ⬝ᵥ y := by
  induction gs with
  | nil => rfl
  | cons g gs ih => exact (g.pull_dotProduct _ _).trans ih

theorem carryAll_dotProduct (gs : List Motion) (b b' : Fin 3 → ℝ) :
    ∑ i, carryAll gs b i * carryAll gs b' i = ∑ i, b i * b' i := by
  induction gs generalizing b b' with
  | nil => rfl
  | cons g gs ih => exact (ih (g.carry b) (g.carry b')).trans (g.carry_dotProduct b b')

/-- The change of the coefficients, as a linear equivalence. -/
noncomputable def pullEquiv (gs : List Motion) : (Fin 10 → ℝ) ≃ₗ[ℝ] (Fin 10 → ℝ) :=
  LinearEquiv.ofBijective
    { toFun := pullAll gs
      map_add' := fun x y => by simpa using pullAll_combine gs 1 1 x y
      map_smul' := fun s x => by simpa using pullAll_combine gs s 0 x 0 }
    ⟨LinearMap.injective_iff_surjective.mpr (pullAll_surjective gs), pullAll_surjective gs⟩

/-- A measurement, given in cylindrical components, after the motions: the sensor and what it reads. -/
noncomputable def moved (gs : List Motion) (y : Measurement ℝ) : Measurement ℝ :=
  ⟨⟨moveAll gs y.place, .cylindric⟩, ⟨carryAll gs y.fieldComponents.components, .cylindric⟩⟩

end Motion

/-! ## The fit -/

namespace AnalyticsManager

variable {svd : JacobiSVD ℝ} {m m' m₁ m₂ m₁' m₂' : AnalyticsManager ℝ} {ms ms' : List (Measurement ℝ)}

/-- The manager has the default basis. -/
structure IsDefault (m : AnalyticsManager ℝ) : Prop where
  basis : m.basisCollection.basis = defaultBasis
  modes : m.basisCollection.modes = defaultModesCount

theorem IsDefault.hasFunctions (hm : m.IsDefault) : m.basisCollection.HasFunctions modeFunction :=
  hm.basis.trans defaultBasis_eq_ofFun

theorem IsDefault.modes_eq (hm : m.IsDefault) : m.basisCollection.modes = 10 := hm.modes

theorem IsDefault.evaluateForPoint (hm : m.IsDefault) {x : Fin 10 → ℝ} (hx : m.storedCoefficients = List.ofFn x)
    (p : Fin 3 → ℝ) : m.evaluateForPoint p = .ok ⟨modeTotal x p, .cylindric⟩ := by
  have heval := fun x => evaluateForPoint_fitted hm.hasFunctions rfl (x := x)
  rw [hm.modes_eq] at heval
  rw [heval x (by decide) hx, fittedField_modeFunction]

/-- What a fit with the default basis stores. -/
theorem exists_defaultMinimiser (hsvd : SolvesLeastSquares svd) (hm : m.IsDefault)
    (h : Ends svd m (.calculateSvdCoefficients ms 0) (.ok ()) m') : m'.IsDefault ∧ ∃ x : Fin 10 → ℝ,
      m'.storedCoefficients = List.ofFn x ∧
      ∀ y : Fin 10 → ℝ, misfit modeFunction (cylindricMeasurements ms) x ≤
        misfit modeFunction (cylindricMeasurements ms) y := by
  obtain ⟨hm', -, hx⟩ := exists_minimiser hsvd hm.hasFunctions rfl h
  rw [hm.modes_eq] at hx
  obtain ⟨x, hx, hmin⟩ := hx
  refine ⟨⟨hm' ▸ hm.basis, hm' ▸ hm.modes⟩, x, hx, fun y => ?_⟩
  rw [← residual_fitDesign, ← residual_fitDesign]
  exact hmin y

theorem misfit_unique (hdet : Determines modeFunction 10 (ms.map Measurement.place))
    {x y : Fin 10 → ℝ} (hx : ∀ z : Fin 10 → ℝ, misfit modeFunction ms x ≤ misfit modeFunction ms z)
    (hy : ∀ z : Fin 10 → ℝ, misfit modeFunction ms y ≤ misfit modeFunction ms z) : x = y := by
  simp only [← residual_fitDesign] at hx hy
  exact IsMinimiser.unique (fun _ => hdet.mulVec) hx hy

theorem isDefault_defaultManager : defaultManager.IsDefault := ⟨rfl, rfl⟩

end AnalyticsManager

end TPC.Analytics
