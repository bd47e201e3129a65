import TPC.Analytics.Symmetry
import TPC.Lib.TruncatedSVD

/-!
# The fit with a threshold

What `calculate_svd_coefficients` stores when small singular values are left out, for any sensors: the
coefficients need not be determined by them.

* `SolvesTruncated`: what is assumed of the decomposition, `SolvesTruncated.leastSquares`;
* `gram_fitDesign`, `values_fitDesign`: the products of the design as sums over the sensors;
* `exists_truncated`: what a fit stores;
* `truncatedFit_combine`, **`calculateSvdCoefficients_superposes`**: it is linear in the readings, and
  does not see their order;
* `BoundsErrors`, **`calculateSvdCoefficients_stable`**: the threshold bounds what errors of the readings do
  to the coefficients;
* **`calculateSvdCoefficients_equivariant`**: moving the measurements moves the fitted field.
-/

namespace TPC.Analytics

open Arith LeastSquares TruncatedSVD

/-- What is assumed of the decomposition: it solves with the singular values that are larger than the
threshold times the largest one. -/
def SolvesTruncated (svd : JacobiSVD ℝ) : Prop :=
  ∀ (d : Design ℝ) (t : ℝ), 0 ≤ t → ∃ (k : ℕ) (S : Decomposition d.toMatrix (Fin k)),
    ∀ j : Fin d.columns, (svd.solve d t).getD j 0 = S.solve t d.rhs j

/-- Without a threshold that is a least-squares solution. -/
theorem SolvesTruncated.leastSquares {svd : JacobiSVD ℝ} (h : SolvesTruncated svd) : SolvesLeastSquares svd := by
  intro d
  obtain ⟨k, S, hS⟩ := h d 0 le_rfl
  rw [funext hS]
  exact S.isMinimiser_solve fun i hi => S.keeps_zero hi

/-- A decomposition that solves with some singular value decomposition. -/
noncomputable def truncatedSVD : JacobiSVD ℝ where
  solve d t := List.ofFn ((exists_decomposition d.toMatrix).choose_spec.some.solve t d.rhs)
  length_solve _ _ := List.length_ofFn

theorem solvesTruncated_truncatedSVD : SolvesTruncated truncatedSVD := by
  intro d t _
  refine ⟨_, (exists_decomposition d.toMatrix).choose_spec.some, fun j => ?_⟩
  rw [truncatedSVD, List.getD_eq_getElem?_getD, List.getElem?_ofFn, dif_pos j.isLt]
  rfl

/-! ## The products of the design -/

section Products

variable (f : Fin 3 → ℕ → ℝ → ℝ → ℝ → ℝ) {modes : ℕ} (ms : List (Measurement ℝ)) (x y : Fin modes → ℝ)

theorem gram_fitDesign : (fitDesign f modes ms).toMatrix.mulVec x ⬝ᵥ (fitDesign f modes ms).toMatrix.mulVec y =
    overSensors (fun m i => m.fitted f x i * m.fitted f y i) ms := by
  refine (sum_fitDesign f (fun row _ => dotRow x row * dotRow y row) ms).trans ?_
  simp only [dotRow_modes]
  rfl

theorem values_fitDesign : (fitDesign f modes ms).toMatrix.mulVec x ⬝ᵥ (fitDesign f modes ms).rhs =
    overSensors (fun m i => m.fitted f x i * m.reading i) ms := by
  refine (sum_fitDesign f (fun row v => dotRow x row * v) ms).trans ?_
  simp only [dotRow_modes]
  rfl

theorem rhs_fitDesign : (fitDesign f modes ms).rhs ⬝ᵥ (fitDesign f modes ms).rhs =
    overSensors (fun m i => m.reading i * m.reading i) ms :=
  sum_fitDesign f (fun _ v => v * v) ms

end Products

namespace AnalyticsManager

variable {f : Fin 3 → ℕ → ℝ → ℝ → ℝ → ℝ} {svd : JacobiSVD ℝ} {b : BasisCollection ℝ}
  {m m' : AnalyticsManager ℝ} {ms : List (Measurement ℝ)} {t : ℝ}

variable (f) in
/-- The design that a fit of measurements makes. -/
noncomputable abbrev cylindricDesign (modes : ℕ) (ms : List (Measurement ℝ)) : Design ℝ :=
  fitDesign f modes (cylindricMeasurements ms)

/-- The coefficients that a decomposition of it gives. -/
noncomputable def truncatedFit {modes k : ℕ} (S : Decomposition (cylindricDesign f modes ms).toMatrix (Fin k))
    (t : ℝ) : Fin modes → ℝ := S.solve t (cylindricDesign f modes ms).rhs

/-- **A fit stores a truncated solution.** -/
theorem exists_truncated (hsvd : SolvesTruncated svd) (hbasis : b.HasFunctions f) (hm : m.basisCollection = b)
    (h : Ends svd m (.calculateSvdCoefficients ms t) (.ok ()) m') :
    0 ≤ t ∧ m'.basisCollection = b ∧ b.modes ≤ indexMax ∧
      ∃ (k : ℕ) (S : Decomposition (cylindricDesign f b.modes ms).toMatrix (Fin k)),
        m'.storedCoefficients = List.ofFn (truncatedFit S t) := by
  subst hm
  cases calculateSvdCoefficients_spec h with
  | stored cs hcs =>
    have hmodes := (SVDSolver.length_solveSvd hcs).1
    obtain ⟨d, hd, hcs⟩ := Fold.bind_eq_ok.mp hcs
    rw [hbasis] at hd
    have hadmits := SVDSolver.admits_of_design hd
    have ht : 0 ≤ t := not_lt.mp hadmits.threshold
    rw [SVDSolver.design_ofFun f hadmits] at hd
    cases hd
    cases hcs
    obtain ⟨k, S, hS⟩ := hsvd (cylindricDesign f m.basisCollection.modes ms) t ht
    exact ⟨ht, rfl, hmodes, k, S, (svd.solve_eq_ofFn _ t).trans (congrArg List.ofFn (funext hS))⟩

/-! ## Superposition -/

section Superposition

/-- Two readings of each of some sensors. -/
abbrev Readings : Type := List (PointComponents ℝ × FieldComponents ℝ × FieldComponents ℝ)

/-- The measurements with the first readings, -/
def Readings.first (l : Readings) : List (Measurement ℝ) := l.map fun q => ⟨q.1, q.2.1⟩

/-- with the second, -/
def Readings.second (l : Readings) : List (Measurement ℝ) := l.map fun q => ⟨q.1, q.2.2⟩

/-- and with a combination of the two. -/
noncomputable def Readings.combine (l : Readings) (s t : ℝ) : List (Measurement ℝ) :=
  l.map fun q => ⟨q.1, ⟨s • q.2.1.components + t • q.2.2.components, q.2.1.coordinateType⟩⟩

variable {l : Readings} {s r : ℝ} {modes : ℕ}

/-- Where a sensor stands, in cylindrical coordinates. -/
noncomputable def siteOf (q : PointComponents ℝ) : Fin 3 → ℝ := (q.transformCoordinates .cylindric).components

theorem fittedField_sub (x y : Fin modes → ℝ) (p : Fin 3 → ℝ) (i : Fin 3) :
    fittedField f (x - y) p i = fittedField f x p i - fittedField f y p i := by
  have h := fittedField_combine (f := f) x y 1 (-1) p i
  rw [one_smul, neg_one_smul, ← sub_eq_add_neg] at h
  rw [h]
  ring

variable (f) in
/-- The square of the distance of two fields at a sensor. -/
noncomputable def squaredDistance (x y : Fin modes → ℝ) (q : PointComponents ℝ) : ℝ :=
  ∑ i, (fittedField f x (siteOf q) i - fittedField f y (siteOf q) i) ^ 2

variable (f) in
/-- The error of the coefficients `x` for a reading, against the field of `d`. -/
noncomputable def errorAgainst (d x : Fin modes → ℝ) (q : PointComponents ℝ) (v : Fin 3 → ℝ) : ℝ :=
  ∑ i, fittedField f d (siteOf q) i * (fittedField f x (siteOf q) i - v i)

theorem errorAgainst_combine (d x y : Fin modes → ℝ) (q : PointComponents ℝ) (u v : Fin 3 → ℝ) :
    errorAgainst f d (s • x + t • y) q (s • u + t • v) =
      s * errorAgainst f d x q u + t * errorAgainst f d y q v := by
  simp only [errorAgainst, fittedField_combine, Pi.add_apply, Pi.smul_apply, smul_eq_mul, Finset.mul_sum,
    ← Finset.sum_add_distrib]
  exact Finset.sum_congr rfl fun i _ => by ring

theorem sum_errorAgainst_combine (l : Readings) (d x y : Fin modes → ℝ) (s t : ℝ) :
    (l.map fun q => errorAgainst f d (s • x + t • y) q.1 (s • q.2.1.components + t • q.2.2.components)).sum =
      s * (l.map fun q => errorAgainst f d x q.1 q.2.1.components).sum +
        t * (l.map fun q => errorAgainst f d y q.1 q.2.2.components).sum := by
  simp only [errorAgainst_combine]
  rw [List.sum_map_add, List.sum_map_mul_left, List.sum_map_mul_left]

theorem overSensors_cylindric {ms ms' : List (Measurement ℝ)} (h : ms.Perm ms')
    (g : Measurement ℝ → Fin 3 → ℝ) :
    overSensors g (cylindricMeasurements ms) = overSensors g (cylindricMeasurements ms') :=
  overSensors_perm (h.map _)

theorem overSensors_readings {v : PointComponents ℝ × FieldComponents ℝ × FieldComponents ℝ → FieldComponents ℝ}
    (h : ms.Perm (l.map fun q => ⟨q.1, v q⟩)) (g : (Fin 3 → ℝ) → (Fin 3 → ℝ) → Fin 3 → ℝ) :
    overSensors (fun y i => g y.place y.fieldComponents.components i) (cylindricMeasurements ms) =
      (l.map fun q => ∑ i, g (siteOf q.1) (v q).components i).sum := by
  rw [overSensors_cylindric h, cylindricMeasurements, List.map_map, overSensors_map]
  rfl

section Products

variable {v : PointComponents ℝ × FieldComponents ℝ × FieldComponents ℝ → FieldComponents ℝ}
  (h : ms.Perm (l.map fun q => ⟨q.1, v q⟩)) (x y : Fin modes → ℝ)

include h

theorem gram_readings :
    (cylindricDesign f modes ms).toMatrix.mulVec x ⬝ᵥ (cylindricDesign f modes ms).toMatrix.mulVec y =
      (l.map fun q => ∑ i, fittedField f x (siteOf q.1) i * fittedField f y (siteOf q.1) i).sum :=
  (gram_fitDesign f _ x y).trans
    (overSensors_readings h fun p _ i => fittedField f x p i * fittedField f y p i)

theorem error_readings : (cylindricDesign f modes ms).toMatrix.mulVec y ⬝ᵥ
    ((cylindricDesign f modes ms).toMatrix.mulVec x - (cylindricDesign f modes ms).rhs) =
      (l.map fun q => errorAgainst f y x q.1 (v q).components).sum :=
  (dotProduct_fitDesign f _ x y).trans
    (overSensors_readings h fun p u i => fittedField f y p i * (fittedField f x p i - u i))

theorem gram_self_readings :
    (cylindricDesign f modes ms).toMatrix.mulVec x ⬝ᵥ (cylindricDesign f modes ms).toMatrix.mulVec x =
      (l.map fun q => ∑ i, fittedField f x (siteOf q.1) i ^ 2).sum :=
  (gram_readings h x x).trans (by simp only [sq])

theorem rhs_readings : (cylindricDesign f modes ms).rhs ⬝ᵥ (cylindricDesign f modes ms).rhs =
    (l.map fun q => ∑ i, (v q).components i ^ 2).sum := by
  refine (rhs_fitDesign f _).trans ((overSensors_readings h fun _ u i => u i * u i).trans ?_)
  simp only [sq]

theorem truncatedFit_field_le {k : ℕ} (S : Decomposition (cylindricDesign f modes ms).toMatrix (Fin k)) :
    (l.map fun q => ∑ i, fittedField f (truncatedFit S t) (siteOf q.1) i ^ 2).sum ≤
      (l.map fun q => ∑ i, (v q).components i ^ 2).sum := by
  rw [← gram_self_readings h (truncatedFit S t), ← rhs_readings h (f := f)]
  exact S.sq_le

theorem truncatedFit_mul_le {k : ℕ} (ht : 0 ≤ t)
    (S : Decomposition (cylindricDesign f modes ms).toMatrix (Fin k)) :
    t ^ 2 * (l.map fun q => ∑ i, fittedField f x (siteOf q.1) i ^ 2).sum * ∑ j, truncatedFit S t j ^ 2 ≤
      (l.map fun q => ∑ i, (v q).components i ^ 2).sum * ∑ j, x j ^ 2 := by
  have hsq : ∀ y : Fin modes → ℝ, ∑ j, y j ^ 2 = y ⬝ᵥ y := fun y => Finset.sum_congr rfl fun j _ => sq (y j)
  rw [← gram_self_readings h x, ← rhs_readings h (f := f), hsq, hsq]
  exact S.mul_sq_le ht x

end Products

variable (f modes) in
theorem carries_readings {ms ms' : List (Measurement ℝ)}
    {v v' : PointComponents ℝ × FieldComponents ℝ × FieldComponents ℝ → FieldComponents ℝ}
    (h : ms.Perm (l.map fun q => ⟨q.1, v q⟩)) (h' : ms'.Perm (l.map fun q => ⟨q.1, v' q⟩)) :
    Carries (cylindricDesign f modes ms).toMatrix (cylindricDesign f modes ms').toMatrix
      (LinearEquiv.refl ℝ (Fin modes → ℝ)) :=
  .refl fun x y => (gram_readings h' x y).trans (gram_readings h x y).symm

variable {ms₁ ms₂ ms₃ : List (Measurement ℝ)} {k₁ k₂ k₃ : ℕ}

/-- The truncated solution for a combination of two readings of the same sensors. -/
theorem truncatedFit_combine (h₁ : ms₁.Perm l.first) (h₂ : ms₂.Perm l.second) (h₃ : ms₃.Perm (l.combine s r))
    (S₁ : Decomposition (cylindricDesign f modes ms₁).toMatrix (Fin k₁))
    (S₂ : Decomposition (cylindricDesign f modes ms₂).toMatrix (Fin k₂))
    (S₃ : Decomposition (cylindricDesign f modes ms₃).toMatrix (Fin k₃)) :
    truncatedFit S₃ t = s • truncatedFit S₁ t + r • truncatedFit S₂ t := by
  have hcarry₁ := carries_readings f modes h₃ h₁
  have hcarry₂ := carries_readings f modes h₃ h₂
  refine (S₃.eq_solve ?_ fun (d : Fin modes → ℝ) hd => ?_).symm
  · exact Submodule.add_mem _ (Submodule.smul_mem _ s (hcarry₁.symm.map_mem_space S₁ S₃ S₁.solve_mem_space))
      (Submodule.smul_mem _ r (hcarry₂.symm.map_mem_space S₂ S₃ S₂.solve_mem_space))
  · have hn₁ := (error_readings h₁ (truncatedFit S₁ t) d).symm.trans
      (S₁.solve_normal (hcarry₁.map_mem_space S₃ S₁ hd))
    have hn₂ := (error_readings h₂ (truncatedFit S₂ t) d).symm.trans
      (S₂.solve_normal (hcarry₂.map_mem_space S₃ S₂ hd))
    refine (error_readings h₃ _ d).trans ((sum_errorAgainst_combine l _ _ _ s r).trans ?_)
    rw [hn₁, hn₂, mul_zero, mul_zero, add_zero]

/-- **A fit with a threshold is linear in the readings**, whatever the sensors are and in any order of the
measurements. -/
theorem calculateSvdCoefficients_superposes (hsvd : SolvesTruncated svd) (hbasis : b.HasFunctions f)
    {m₁ m₂ m₃ m₁' m₂' m₃' : AnalyticsManager ℝ} (hb₁ : m₁.basisCollection = b) (hb₂ : m₂.basisCollection = b)
    (hb₃ : m₃.basisCollection = b) (h₁ : ms₁.Perm l.first) (h₂ : ms₂.Perm l.second) (h₃ : ms₃.Perm (l.combine s r))
    (he₁ : Ends svd m₁ (.calculateSvdCoefficients ms₁ t) (.ok ()) m₁')
    (he₂ : Ends svd m₂ (.calculateSvdCoefficients ms₂ t) (.ok ()) m₂')
    (he₃ : Ends svd m₃ (.calculateSvdCoefficients ms₃ t) (.ok ()) m₃') :
    ∃ x y : Fin b.modes → ℝ, m₁'.storedCoefficients = List.ofFn x ∧ m₂'.storedCoefficients = List.ofFn y ∧
      m₃'.storedCoefficients = List.ofFn (s • x + r • y) := by
  obtain ⟨-, -, -, _, S₁, hx⟩ := exists_truncated hsvd hbasis hb₁ he₁
  obtain ⟨-, -, -, _, S₂, hy⟩ := exists_truncated hsvd hbasis hb₂ he₂
  obtain ⟨-, -, -, _, S₃, hz⟩ := exists_truncated hsvd hbasis hb₃ he₃
  refine ⟨_, _, hx, hy, ?_⟩
  rw [hz, truncatedFit_combine h₁ h₂ h₃ S₁ S₂ S₃]

/-- Two readings of three sensors, which do not determine the coefficients. -/
noncomputable def threeSensors : Readings :=
  [(⟨![1, 0, 1], .cylindric⟩, ⟨![1, 0, 0], .cylindric⟩, ⟨![0, 1, 0], .cylindric⟩),
    (⟨![1, 1, -1], .cylindric⟩, ⟨![0, 0, 1], .cylindric⟩, ⟨![1, -1, 0], .cylindric⟩),
    (⟨![0.5, -1, 0], .cylindric⟩, ⟨![0, 0.5, 1], .cylindric⟩, ⟨![0, 0, -1], .cylindric⟩)]

theorem exists_ends_three (ms : List (Measurement ℝ)) (h : ms.length = 3) :
    ∃ m', Ends truncatedSVD defaultManager (.calculateSvdCoefficients ms 2⁻¹) (.ok ()) m' :=
  exists_ends_fit truncatedSVD (m := defaultManager) hasFunctions_default rfl
    ⟨List.ne_nil_of_length_pos (by omega), by decide, by norm_num, h ▸ (by decide : 3 ≤ indexMax / 3), by decide⟩

/-- `calculateSvdCoefficients_superposes` for them, the second readings taken in the opposite order. -/
theorem calculateSvdCoefficients_superposes_threeSensors : ∃ (m₁ m₂ m₃ : AnalyticsManager ℝ) (x y : Fin 10 → ℝ),
    Ends truncatedSVD defaultManager (.calculateSvdCoefficients threeSensors.first 2⁻¹) (.ok ()) m₁ ∧
      Ends truncatedSVD defaultManager (.calculateSvdCoefficients threeSensors.second.reverse 2⁻¹) (.ok ()) m₂ ∧
      Ends truncatedSVD defaultManager (.calculateSvdCoefficients (threeSensors.combine 2 3) 2⁻¹) (.ok ()) m₃ ∧
      m₁.storedCoefficients = List.ofFn x ∧ m₂.storedCoefficients = List.ofFn y ∧
      m₃.storedCoefficients = List.ofFn ((2 : ℝ) • x + (3 : ℝ) • y) := by
  obtain ⟨m₁, h₁⟩ := exists_ends_three threeSensors.first rfl
  obtain ⟨m₂, h₂⟩ := exists_ends_three threeSensors.second.reverse rfl
  obtain ⟨m₃, h₃⟩ := exists_ends_three (threeSensors.combine 2 3) rfl
  obtain ⟨x, y, hx, hy, hz⟩ := calculateSvdCoefficients_superposes (l := threeSensors) (s := 2) (r := 3)
    solvesTruncated_truncatedSVD hasFunctions_default rfl rfl rfl (.refl _) (List.reverse_perm _) (.refl _) h₁ h₂ h₃
  exact ⟨m₁, m₂, m₃, x, y, h₁, h₂, h₃, hx, hy, hz⟩

/-! ## Errors of the readings -/

variable (f) in
/-- What the errors of two readings of the same sensors do to the coefficients. -/
structure BoundsErrors (l : Readings) (t : ℝ) (x y : Fin modes → ℝ) : Prop where
  /-- The fields differ at the sensors by no more than the readings. -/
  field : (l.map fun q => squaredDistance f x y q.1).sum ≤
    (l.map fun q => ∑ i, (q.2.1.components i - q.2.2.components i) ^ 2).sum
  /-- The coefficients differ by no more than the threshold allows, against any others. -/
  coefficients : ∀ z : Fin modes → ℝ,
    t ^ 2 * (l.map fun q => ∑ i, fittedField f z (siteOf q.1) i ^ 2).sum * ∑ k, (x k - y k) ^ 2 ≤
      (l.map fun q => ∑ i, (q.2.1.components i - q.2.2.components i) ^ 2).sum * ∑ k, z k ^ 2
  /-- A field that has been fitted is fitted again. -/
  kept : (∀ q ∈ l, q.2.2.components = fittedField f x (siteOf q.1)) → y = x

theorem boundsErrors (ht : 0 ≤ t) (h₁ : ms₁.Perm l.first) (h₂ : ms₂.Perm l.second)
    (S₁ : Decomposition (cylindricDesign f modes ms₁).toMatrix (Fin k₁))
    (S₂ : Decomposition (cylindricDesign f modes ms₂).toMatrix (Fin k₂)) :
    BoundsErrors f l t (truncatedFit S₁ t) (truncatedFit S₂ t) := by
  -- The difference of the two solutions is the solution for the difference of the readings.
  obtain ⟨ms₃, h₃⟩ : ∃ ms₃ : List (Measurement ℝ), ms₃.Perm (l.combine 1 (-1)) := ⟨_, .refl _⟩
  obtain ⟨k₃, ⟨S₃⟩⟩ := exists_decomposition (cylindricDesign f modes ms₃).toMatrix
  have hdiff : truncatedFit S₃ t = truncatedFit S₁ t - truncatedFit S₂ t := by
    rw [truncatedFit_combine h₁ h₂ h₃ S₁ S₂ S₃, one_smul, neg_one_smul, sub_eq_add_neg]
  have hvalues : (l.map fun q => ∑ i, ((1 : ℝ) • q.2.1.components + (-1 : ℝ) • q.2.2.components) i ^ 2).sum =
      (l.map fun q => ∑ i, (q.2.1.components i - q.2.2.components i) ^ 2).sum := by
    simp only [one_smul, neg_one_smul, Pi.add_apply, Pi.neg_apply, sub_eq_add_neg]
  constructor
  · have hfield := truncatedFit_field_le h₃ S₃ (t := t)
    rw [hvalues, hdiff] at hfield
    simp only [fittedField_sub] at hfield
    exact hfield
  · intro z
    have hle := truncatedFit_mul_le h₃ z ht S₃
    rw [hvalues, hdiff] at hle
    exact hle
  · intro hkept
    have hmem := (carries_readings f modes h₁ h₂).map_mem_space S₁ S₂
      (S₁.solve_mem_space (t := t) (b := (cylindricDesign f modes ms₁).rhs))
    refine (S₂.eq_solve hmem fun (d : Fin modes → ℝ) _ => ?_).symm
    refine (error_readings h₂ (truncatedFit S₁ t) d).trans (List.sum_eq_zero ?_)
    refine List.forall_mem_map.mpr fun q hq => ?_
    rw [hkept q hq]
    exact Finset.sum_eq_zero fun i _ => by rw [sub_self, mul_zero]

/-- **The threshold bounds what errors of the readings do.** The fits of two readings of the same sensors,
whatever the sensors are and in any order of the measurements, differ by no more than `BoundsErrors` allows. -/
theorem calculateSvdCoefficients_stable (hsvd : SolvesTruncated svd) (hbasis : b.HasFunctions f)
    {m₁ m₂ m₁' m₂' : AnalyticsManager ℝ} (hb₁ : m₁.basisCollection = b) (hb₂ : m₂.basisCollection = b)
    (h₁ : ms₁.Perm l.first) (h₂ : ms₂.Perm l.second)
    (he₁ : Ends svd m₁ (.calculateSvdCoefficients ms₁ t) (.ok ()) m₁')
    (he₂ : Ends svd m₂ (.calculateSvdCoefficients ms₂ t) (.ok ()) m₂') :
    ∃ x y : Fin b.modes → ℝ, m₁'.storedCoefficients = List.ofFn x ∧ m₂'.storedCoefficients = List.ofFn y ∧
      BoundsErrors f l t x y := by
  obtain ⟨ht, -, -, _, S₁, hx⟩ := exists_truncated hsvd hbasis hb₁ he₁
  obtain ⟨-, -, -, _, S₂, hy⟩ := exists_truncated hsvd hbasis hb₂ he₂
  exact ⟨_, _, hx, hy, boundsErrors ht h₁ h₂ S₁ S₂⟩

/-- `calculateSvdCoefficients_stable` for three sensors, read in two orders. -/
theorem calculateSvdCoefficients_stable_threeSensors : ∃ (m₁ m₂ : AnalyticsManager ℝ) (x y : Fin 10 → ℝ),
    Ends truncatedSVD defaultManager (.calculateSvdCoefficients threeSensors.first 2⁻¹) (.ok ()) m₁ ∧
      Ends truncatedSVD defaultManager (.calculateSvdCoefficients threeSensors.second.reverse 2⁻¹) (.ok ()) m₂ ∧
      m₁.storedCoefficients = List.ofFn x ∧ m₂.storedCoefficients = List.ofFn y ∧
      BoundsErrors modeFunction threeSensors 2⁻¹ x y := by
  obtain ⟨m₁, h₁⟩ := exists_ends_three threeSensors.first rfl
  obtain ⟨m₂, h₂⟩ := exists_ends_three threeSensors.second.reverse rfl
  obtain ⟨x, y, hx, hy, hbounds⟩ := calculateSvdCoefficients_stable (l := threeSensors)
    solvesTruncated_truncatedSVD hasFunctions_default rfl rfl (.refl _) (List.reverse_perm _) h₁ h₂
  exact ⟨m₁, m₂, x, y, h₁, h₂, hx, hy, hbounds⟩

end Superposition

end AnalyticsManager

/-! ## Symmetries -/

theorem overSensors_moved (gs : List Motion) {U W u w : Measurement ℝ → Fin 3 → ℝ} (ms : List (Measurement ℝ))
    (hU : ∀ y, U (Motion.moved gs y) = Motion.carryAll gs (u y))
    (hW : ∀ y, W (Motion.moved gs y) = Motion.carryAll gs (w y)) :
    overSensors (fun y i => U y i * W y i) (ms.map (Motion.moved gs)) =
      overSensors (fun y i => u y i * w y i) ms := by
  rw [overSensors_map]
  refine congrArg List.sum (List.map_congr_left fun y _ => ?_)
  simp only [hU, hW, Motion.carryAll_dotProduct]

namespace AnalyticsManager

section Symmetry

variable {svd : JacobiSVD ℝ} {m m' m₁ m₂ m₁' m₂' : AnalyticsManager ℝ} {ms ms' : List (Measurement ℝ)} {t : ℝ}

theorem fitted_moved (gs : List Motion) (x : Fin 10 → ℝ) (y : Measurement ℝ) :
    (Motion.moved gs y).fitted modeFunction x = Motion.carryAll gs (y.fitted modeFunction (Motion.pullAll gs x)) := by
  show fittedField modeFunction x (Motion.moveAll gs y.place) = _
  rw [fittedField_modeFunction, Motion.modeTotal_moveAll, ← fittedField_modeFunction]
  rfl

theorem carries_moved (hcyl : ∀ y ∈ ms, y.pointComponents.coordinateType = .cylindric) (gs : List Motion)
    (hms : ms'.Perm (ms.map (Motion.moved gs))) :
    Carries (cylindricDesign modeFunction 10 ms').toMatrix (cylindricDesign modeFunction 10 ms).toMatrix
      (Motion.pullEquiv gs) ∧
    ∀ x : Fin 10 → ℝ, (cylindricDesign modeFunction 10 ms).toMatrix.mulVec (Motion.pullEquiv gs x) ⬝ᵥ
      (cylindricDesign modeFunction 10 ms).rhs = (cylindricDesign modeFunction 10 ms').toMatrix.mulVec x ⬝ᵥ
        (cylindricDesign modeFunction 10 ms').rhs := by
  have hcyl' : ∀ y ∈ ms', y.pointComponents.coordinateType = .cylindric := by
    intro y hy
    obtain ⟨y, -, rfl⟩ := List.mem_map.mp (hms.mem_iff.mp hy)
    rfl
  unfold cylindricDesign
  rw [cylindricMeasurements_of_cylindric hcyl, cylindricMeasurements_of_cylindric hcyl']
  refine ⟨⟨Motion.pullAll_dotProduct gs, fun x y => ?_⟩, fun x => ?_⟩
  · refine (gram_fitDesign modeFunction ms _ _).trans (Eq.symm ?_)
    refine (gram_fitDesign modeFunction ms' x y).trans ((overSensors_perm hms).trans ?_)
    exact overSensors_moved gs ms (fitted_moved gs x) (fitted_moved gs y)
  · refine (values_fitDesign modeFunction ms _).trans (Eq.symm ?_)
    refine (values_fitDesign modeFunction ms' x).trans ((overSensors_perm hms).trans ?_)
    exact overSensors_moved gs ms (fitted_moved gs x) fun _ => rfl

theorem exists_defaultTruncated (hsvd : SolvesTruncated svd) (hm : m.IsDefault)
    (h : Ends svd m (.calculateSvdCoefficients ms t) (.ok ()) m') : 0 ≤ t ∧ m'.IsDefault ∧
      ∃ (k : ℕ) (S : Decomposition (cylindricDesign modeFunction 10 ms).toMatrix (Fin k)),
        m'.storedCoefficients = List.ofFn (truncatedFit S t) := by
  obtain ⟨ht, hm', -, hx⟩ := exists_truncated hsvd hm.hasFunctions rfl h
  rw [hm.modes_eq] at hx
  exact ⟨ht, ⟨hm' ▸ hm.basis, hm' ▸ hm.modes⟩, hx⟩

/-- **Moving the measurements moves the field**, with any threshold and whatever the sensors are, when positions and
fields are given in cylindrical components. -/
theorem calculateSvdCoefficients_equivariant (hsvd : SolvesTruncated svd) (h₁ : m₁.IsDefault)
    (h₂ : m₂.IsDefault) (hcyl : ∀ y ∈ ms, y.Cylindric) (gs : List Motion) (hms : ms'.Perm (ms.map (Motion.moved gs)))
    (he₁ : Ends svd m₁ (.calculateSvdCoefficients ms t) (.ok ()) m₁')
    (he₂ : Ends svd m₂ (.calculateSvdCoefficients ms' t) (.ok ()) m₂') (p : Fin 3 → ℝ) :
    ∃ v, m₁'.evaluateForPoint p = .ok ⟨v, .cylindric⟩ ∧
      m₂'.evaluateForPoint (Motion.moveAll gs p) = .ok ⟨Motion.carryAll gs v, .cylindric⟩ := by
  obtain ⟨-, hm₁, _, S, hstored⟩ := exists_defaultTruncated hsvd h₁ he₁
  obtain ⟨-, hm₂, _, S', hstored'⟩ := exists_defaultTruncated hsvd h₂ he₂
  obtain ⟨hcarries, hvalues⟩ := carries_moved (fun y hy => (hcyl y hy).point) gs hms
  have hpull : Motion.pullAll gs (truncatedFit S' t) = truncatedFit S t := hcarries.map_solve hvalues S' S
  refine ⟨_, hm₁.evaluateForPoint hstored p, ?_⟩
  rw [hm₂.evaluateForPoint hstored', Motion.modeTotal_moveAll, hpull]

/-- `calculateSvdCoefficients_equivariant` for three sensors that are turned and mirrored, and read in the opposite
order. -/
theorem calculateSvdCoefficients_equivariant_threeSensors : ∃ (m₁ m₂ : AnalyticsManager ℝ) (v : Fin 3 → ℝ),
    Ends truncatedSVD defaultManager (.calculateSvdCoefficients threeSensors.first 2⁻¹) (.ok ()) m₁ ∧
      Ends truncatedSVD defaultManager (.calculateSvdCoefficients
        (threeSensors.first.map (Motion.moved [.turn 1, .mirrorZ])).reverse 2⁻¹) (.ok ()) m₂ ∧
      m₁.evaluateForPoint ![1, 2, 3] = .ok ⟨v, .cylindric⟩ ∧
      m₂.evaluateForPoint (Motion.moveAll [.turn 1, .mirrorZ] ![1, 2, 3]) =
        .ok ⟨Motion.carryAll [.turn 1, .mirrorZ] v, .cylindric⟩ := by
  obtain ⟨m₁, h₁⟩ := exists_ends_three threeSensors.first rfl
  obtain ⟨m₂, h₂⟩ := exists_ends_three
    (threeSensors.first.map (Motion.moved [.turn 1, .mirrorZ])).reverse rfl
  have hcyl : ∀ y ∈ threeSensors.first, y.Cylindric := by
    intro y hy
    obtain ⟨q, hq, rfl⟩ := List.mem_map.mp hy
    obtain rfl | rfl | rfl := by simpa [threeSensors] using hq
    all_goals exact ⟨rfl, rfl⟩
  obtain ⟨v, hv, hv'⟩ := calculateSvdCoefficients_equivariant solvesTruncated_truncatedSVD
    isDefault_defaultManager isDefault_defaultManager hcyl [.turn 1, .mirrorZ] (List.reverse_perm _) h₁ h₂ ![1, 2, 3]
  exact ⟨m₁, m₂, v, h₁, h₂, hv, hv'⟩

end Symmetry

end AnalyticsManager

end TPC.Analytics
