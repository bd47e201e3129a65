import TPC.Analytics.TwoRings
import TPC.Lib.NormalEquations

/-!
# What a fit minimises

The coefficients that `calculate_svd_coefficients` stores, for any basis of three total functions.

* `fitDesign`, `fittedField`, `overSensors`: the design as a sum over the sensors;
* `sum_fitDesign`, `isMinimiser_fitDesign`; `exists_minimiser`: what a fit stores;
* `exists_ends_fit`; `defaultManager`; `Determines`, `determines_twoRings`: the default basis on two rings of
  sensors;
* **`calculateSvdCoefficients_splits`**: the normal equations at the sensors.
-/

namespace TPC.Analytics

open Arith LeastSquares

section Design

variable (f : Fin 3 → ℕ → ℝ → ℝ → ℝ → ℝ) (modes : ℕ)

/-- The design of a basis of total functions. -/
noncomputable def fitDesign (ms : List (Measurement ℝ)) : Design ℝ :=
  ⟨modes, Fold.flat (ms.map fun y => SVDSolver.totalRows f modes y.pointComponents.components),
    Fold.flat (ms.map SVDSolver.valuesOf)⟩

variable {modes}

/-- The sum of the modes at a cylindrical point. -/
noncomputable def fittedField (x : Fin modes → ℝ) (p : Fin 3 → ℝ) : Fin 3 → ℝ :=
  fun i => ∑ k : Fin modes, x k * f i k (p 0) (p 1) (p 2)

/-- The sum over the components of all measurements. -/
noncomputable def overSensors (g : Measurement ℝ → Fin 3 → ℝ) (ms : List (Measurement ℝ)) : ℝ :=
  (ms.map fun y => ∑ i, g y i).sum

/-- The reading of a component. -/
def Measurement.reading (y : Measurement ℝ) (i : Fin 3) : ℝ := y.fieldComponents.components i

/-- What the sum of the modes gives there. -/
noncomputable def Measurement.fitted (y : Measurement ℝ) (x : Fin modes → ℝ) (i : Fin 3) : ℝ :=
  fittedField f x y.pointComponents.components i

/-- The sum of the squared errors of a coefficient vector. -/
noncomputable def misfit (ms : List (Measurement ℝ)) (x : Fin modes → ℝ) : ℝ :=
  overSensors (fun y i => (y.fitted f x i - y.reading i) ^ 2) ms

@[simp] theorem overSensors_nil (g : Measurement ℝ → Fin 3 → ℝ) : overSensors g [] = 0 := rfl

@[simp] theorem overSensors_cons (g : Measurement ℝ → Fin 3 → ℝ) (y : Measurement ℝ)
    (ms : List (Measurement ℝ)) : overSensors g (y :: ms) = ∑ i, g y i + overSensors g ms := by
  simp [overSensors]

theorem overSensors_perm {g : Measurement ℝ → Fin 3 → ℝ} {ms ms' : List (Measurement ℝ)}
    (h : ms.Perm ms') : overSensors g ms = overSensors g ms' := (h.map _).sum_eq

theorem overSensors_map (g : Measurement ℝ → Fin 3 → ℝ) {α : Type} (h : α → Measurement ℝ)
    (l : List α) : overSensors g (l.map h) = (l.map fun a => ∑ i, g (h a) i).sum := by
  rw [overSensors, List.map_map]
  rfl

theorem sum_range_flat (g : List ℝ → ℝ → ℝ) (ms : List (Measurement ℝ)) :
    ∑ r ∈ Finset.range (fitDesign f modes ms).matrix.length,
      g ((fitDesign f modes ms).matrix.getD r []) ((fitDesign f modes ms).values.getD r 0) =
    overSensors (fun y i => g ((List.range modes).map fun k => f i k (y.pointComponents.components 0)
      (y.pointComponents.components 1) (y.pointComponents.components 2)) (y.reading i)) ms := by
  induction ms with
  | nil => rfl
  | cons y ms ih =>
    rw [overSensors_cons, ← ih]
    simp only [fitDesign, List.map_cons, Fold.flat_cons, List.length_cons, Finset.sum_range_succ',
      List.getD_cons_succ, List.getD_cons_zero, Fin.sum_univ_three]
    simp only [SVDSolver.totalRows, SVDSolver.valuesOf, Measurement.reading]
    ring

theorem sum_fitDesign (g : List ℝ → ℝ → ℝ) (ms : List (Measurement ℝ)) :
    ∑ r : Fin (fitDesign f modes ms).matrix.length,
      g ((fitDesign f modes ms).matrix[r]) ((fitDesign f modes ms).rhs r) =
    overSensors (fun y i => g ((List.range modes).map fun k => f i k (y.pointComponents.components 0)
      (y.pointComponents.components 1) (y.pointComponents.components 2)) (y.reading i)) ms := by
  rw [← sum_range_flat, Finset.sum_range]
  refine Finset.sum_congr rfl fun r _ => ?_
  have hrow : (fitDesign f modes ms).matrix.getD r [] = (fitDesign f modes ms).matrix[r] := by
    rw [List.getD_eq_getElem?_getD, List.getElem?_eq_getElem r.isLt]
    rfl
  rw [hrow]
  rfl

theorem dotRow_modes (x : Fin modes → ℝ) (p : Fin 3 → ℝ) (i : Fin 3) :
    dotRow x ((List.range modes).map fun k => f i k (p 0) (p 1) (p 2)) = fittedField f x p i := by
  refine Finset.sum_congr rfl fun k _ => ?_
  rw [List.getD_eq_getElem?_getD, List.getElem?_map, List.getElem?_range k.isLt, Option.map_some,
    Option.getD_some, mul_comm]

theorem residual_fitDesign (ms : List (Measurement ℝ)) (x : Fin modes → ℝ) :
    residual (fitDesign f modes ms).toMatrix (fitDesign f modes ms).rhs x = misfit f ms x := by
  refine (sum_fitDesign f (fun row v => (dotRow x row - v) ^ 2) ms).trans ?_
  simp only [dotRow_modes]
  rfl

theorem dotProduct_fitDesign (ms : List (Measurement ℝ)) (x d : Fin modes → ℝ) :
    (fitDesign f modes ms).toMatrix.mulVec d ⬝ᵥ
        ((fitDesign f modes ms).toMatrix.mulVec x - (fitDesign f modes ms).rhs) =
      overSensors (fun y i => y.fitted f d i * (y.fitted f x i - y.reading i)) ms := by
  refine (sum_fitDesign f (fun row v => dotRow d row * (dotRow x row - v)) ms).trans ?_
  simp only [dotRow_modes]
  rfl

/-- **The normal equations at the sensors.** -/
theorem isMinimiser_fitDesign {ms : List (Measurement ℝ)} {x : Fin modes → ℝ} :
    IsMinimiser (fitDesign f modes ms).toMatrix (fitDesign f modes ms).rhs x ↔
      ∀ d : Fin modes → ℝ, overSensors (fun y i => y.fitted f d i * (y.fitted f x i - y.reading i)) ms = 0 := by
  simp only [← dotProduct_fitDesign]
  exact isMinimiser_iff

end Design

/-! ## The sensors -/

section Sensors

variable {f : Fin 3 → ℕ → ℝ → ℝ → ℝ → ℝ} {modes : ℕ} {ms : List (Measurement ℝ)} {x : Fin modes → ℝ}

/-- The position of a measurement. -/
abbrev Measurement.place (y : Measurement ℝ) : Fin 3 → ℝ := y.pointComponents.components

variable (f modes) in
/-- Only the zero vector vanishes at all of these positions. -/
def Determines (ps : List (Fin 3 → ℝ)) : Prop :=
  ∀ x : Fin modes → ℝ, (∀ p ∈ ps, fittedField f x p = 0) → x = 0

variable (f ms x) in
/-- What a least-squares fit leaves at the sensors. -/
structure FitsReadings : Prop where
  /-- The errors are orthogonal to every mode. -/
  normal : ∀ k : Fin modes, overSensors (fun y i =>
    f i k (y.place 0) (y.place 1) (y.place 2) * (y.fitted f x i - y.reading i)) ms = 0
  /-- What is fitted and the errors make up the readings. -/
  energy : overSensors (fun y i => y.reading i ^ 2) ms =
    overSensors (fun y i => y.fitted f x i ^ 2) ms + misfit f ms x
  /-- No coefficients have smaller errors. -/
  least : ∀ x' : Fin modes → ℝ, misfit f ms x ≤ misfit f ms x'

theorem fittedField_single (k : Fin modes) (p : Fin 3 → ℝ) (i : Fin 3) :
    fittedField f (Pi.single k 1) p i = f i k (p 0) (p 1) (p 2) := by
  rw [fittedField, Finset.sum_eq_single k]
  · rw [Pi.single_eq_same, one_mul]
  · intro j _ hj
    rw [Pi.single_eq_of_ne hj, zero_mul]
  · simp

theorem fittedField_combine (x y : Fin modes → ℝ) (s t : ℝ) (p : Fin 3 → ℝ) (i : Fin 3) :
    fittedField f (s • x + t • y) p i = s * fittedField f x p i + t * fittedField f y p i := by
  simp only [fittedField, Pi.add_apply, Pi.smul_apply, smul_eq_mul, Finset.mul_sum,
    ← Finset.sum_add_distrib]
  exact Finset.sum_congr rfl fun k _ => by ring

theorem fitsReadings (h : IsMinimiser (fitDesign f modes ms).toMatrix (fitDesign f modes ms).rhs x) :
    FitsReadings f ms x := by
  refine ⟨fun k => ?_, ?_, fun x' => ?_⟩
  · have hk := isMinimiser_fitDesign f |>.mp h (Pi.single k 1)
    simpa only [Measurement.fitted, fittedField_single] using hk
  · have hsq := h.sq_add
    rw [residual_fitDesign] at hsq
    have hb : (fitDesign f modes ms).rhs ⬝ᵥ (fitDesign f modes ms).rhs =
        overSensors (fun y i => y.reading i ^ 2) ms := by
      refine (sum_fitDesign f (fun _ v => v * v) ms).trans ?_
      simp only [sq]
    have hA : (fitDesign f modes ms).toMatrix.mulVec x ⬝ᵥ (fitDesign f modes ms).toMatrix.mulVec x =
        overSensors (fun y i => y.fitted f x i ^ 2) ms := by
      refine (sum_fitDesign f (fun row _ => dotRow x row * dotRow x row) ms).trans ?_
      simp only [dotRow_modes, sq]
      rfl
    rw [← hb, ← hA, hsq]
  · rw [← residual_fitDesign, ← residual_fitDesign]
    exact h x'

theorem Determines.mulVec (h : Determines f modes (ms.map Measurement.place))
    (hx : (fitDesign f modes ms).toMatrix.mulVec x = 0) : x = 0 := by
  have hrows := Design.toMatrix_mulVec_eq_zero.mp hx
  refine h x (List.forall_mem_map.mpr fun y hy => funext fun i => ?_)
  rw [← dotRow_modes]
  refine hrows _ (List.mem_flatMap.mpr ⟨_, List.mem_map_of_mem hy, ?_⟩)
  fin_cases i <;> simp [SVDSolver.totalRows]

end Sensors

/-! ## What is stored -/

/-- The functions of the collection are total. -/
def BasisCollection.HasFunctions (b : BasisCollection ℝ) (f : Fin 3 → ℕ → ℝ → ℝ → ℝ → ℝ) : Prop :=
  b.basis = List.ofFn fun i => .ofFun (f i)

theorem JacobiSVD.solve_eq_ofFn (svd : JacobiSVD ℝ) (d : Design ℝ) (t : ℝ) :
    svd.solve d t = List.ofFn fun j : Fin d.columns => (svd.solve d t).getD j 0 := by
  apply List.ext_getElem ((svd.length_solve d t).trans List.length_ofFn.symm)
  intro k hk hk'
  rw [List.getElem_ofFn, List.getD_eq_getElem?_getD, List.getElem?_eq_getElem hk]
  rfl

namespace AnalyticsManager

variable {f : Fin 3 → ℕ → ℝ → ℝ → ℝ → ℝ} {svd : JacobiSVD ℝ} {b : BasisCollection ℝ}
  {m m' : AnalyticsManager ℝ} {ms : List (Measurement ℝ)}

/-- **A fit stores a minimiser.** -/
theorem exists_minimiser (hsvd : SolvesLeastSquares svd) (hbasis : b.HasFunctions f)
    (hm : m.basisCollection = b) (h : Ends svd m (.calculateSvdCoefficients ms 0) (.ok ()) m') :
    m'.basisCollection = b ∧ b.modes ≤ indexMax ∧ ∃ x : Fin b.modes → ℝ,
      m'.storedCoefficients = List.ofFn x ∧
      IsMinimiser (fitDesign f b.modes (cylindricMeasurements ms)).toMatrix
        (fitDesign f b.modes (cylindricMeasurements ms)).rhs x := by
  subst hm
  cases calculateSvdCoefficients_spec h with
  | stored cs hcs =>
    have hmodes := (SVDSolver.length_solveSvd hcs).1
    obtain ⟨d, hd, hcs⟩ := Fold.bind_eq_ok.mp hcs
    rw [hbasis] at hd
    have hadmits := SVDSolver.admits_of_design hd
    rw [SVDSolver.design_ofFun f hadmits] at hd
    cases hd
    cases hcs
    exact ⟨rfl, hmodes, _, svd.solve_eq_ofFn _ 0,
      hsvd (fitDesign f m.basisCollection.modes (cylindricMeasurements ms))⟩

theorem evaluateForPoint_fitted (hbasis : b.HasFunctions f) (hm : m.basisCollection = b)
    (hmodes : b.modes ≤ indexMax) {x : Fin b.modes → ℝ} (hx : m.storedCoefficients = List.ofFn x)
    (p : Fin 3 → ℝ) : m.evaluateForPoint p = .ok ⟨fittedField f x p, .cylindric⟩ := by
  subst hm
  have hmissing : ¬ m.coefficientsMissing := fun hne => hne (by
    rw [hx, List.length_ofFn, toIndex_of_le hmodes])
  have hlen : m.basisCollection.modes ≤ (List.ofFn x).length := by rw [List.length_ofFn]
  rw [evaluateForPoint_of_not_missing hmissing, modeSumAt, hbasis, hx, modeSum_ofFun f p hlen]
  refine congrArg (fun v => Except.ok (⟨v, .cylindric⟩ : FieldComponents ℝ)) (funext fun i => ?_)
  rw [foldl_add_eq_sum fun k => (List.ofFn x).getD k 0 * f i k (p 0) (p 1) (p 2)]
  refine Finset.sum_congr rfl fun k _ => ?_
  rw [List.getD_eq_getElem?_getD, List.getElem?_ofFn, dif_pos k.isLt, Option.getD_some]

/-- A fit that `solve_svd` admits succeeds. -/
theorem exists_ends_fit {t : ℝ} (svd : JacobiSVD ℝ) (hbasis : b.HasFunctions f) (hm : m.basisCollection = b)
    (ha : SVDSolver.Admits b.modes ms t) : ∃ m', Ends svd m (.calculateSvdCoefficients ms t) (.ok ()) m' := by
  subst hm
  have hlen : (cylindricMeasurements ms).length = ms.length := List.length_map _
  have ha' : SVDSolver.Admits m.basisCollection.modes (cylindricMeasurements ms) t :=
    ⟨fun he => ha.nonempty (List.map_eq_nil_iff.mp he), ha.modes_ne, ha.threshold, hlen ▸ ha.rows, ha.modes_le⟩
  have hb : m.basisCollection.basis ≠ [] := by
    rw [hbasis]
    exact List.cons_ne_nil _ _
  have hsolve : SVDSolver.solveSvd svd (cylindricMeasurements ms) m.basisCollection.basis
      m.basisCollection.modes t =
        .ok (svd.solve (fitDesign f m.basisCollection.modes (cylindricMeasurements ms)) t) := by
    rw [SVDSolver.solveSvd, hbasis, SVDSolver.design_ofFun f ha', Fold.ok_bind]
    rfl
  exact ⟨_, ends_calculateSvdCoefficients ha.nonempty hb hsolve⟩

/-! ## The default basis on two rings -/

/-- The collection that `TPC::TPC` makes. -/
noncomputable def defaultCollection : BasisCollection ℝ where
  arity := kDimension
  modes := defaultModesCount
  basisType := .cylindric
  basis := defaultBasis
  arity_ne := by decide
  modes_ne := by decide
  modes_le := by decide
  size_le := le_rfl

theorem createDefaultBasis_default : createDefaultBasis (ofModel defaultBasisR) (ofModel defaultBasisPhi)
    (ofModel defaultBasisZ) defaultModesCount (by decide) = .ok defaultCollection := rfl

theorem hasFunctions_default : defaultCollection.HasFunctions modeFunction := defaultBasis_eq_ofFun

/-- A new manager with it. -/
noncomputable def defaultManager : AnalyticsManager ℝ := ⟨defaultCollection, none, false, []⟩

theorem fittedField_modeFunction (x : Fin 10 → ℝ) (p : Fin 3 → ℝ) :
    fittedField modeFunction x p = modeTotal x p :=
  funext fun i => (dotRow_modes modeFunction x p i).symm.trans (dotRow_modeFunction p x i)

theorem determines_twoRings {R h : ℝ} {n : ℕ} (hR : 0 < R) (hh : 0 < h) (hn : 3 ≤ n) :
    Determines modeFunction 10 (twoRings R h n) := fun x hx =>
  eq_zero_of_twoRings hR hh hn fun p hp => (fittedField_modeFunction x p).symm.trans (hx p hp)

/-- Readings of sensors on two rings. -/
def ringMeasurements (ps : List (Fin 3 → ℝ)) (v : (Fin 3 → ℝ) → Fin 3 → ℝ) : List (Measurement ℝ) :=
  ps.map fun p => ⟨⟨p, .cylindric⟩, ⟨v p, .cylindric⟩⟩

theorem cylindric_ringMeasurements (ps : List (Fin 3 → ℝ)) (v : (Fin 3 → ℝ) → Fin 3 → ℝ) :
    ∀ y ∈ ringMeasurements ps v, y.pointComponents.coordinateType = .cylindric :=
  List.forall_mem_map.mpr fun _ _ => rfl

theorem places_ringMeasurements (ps : List (Fin 3 → ℝ)) (v : (Fin 3 → ℝ) → Fin 3 → ℝ) :
    (ringMeasurements ps v).map Measurement.place = ps := by
  rw [ringMeasurements, List.map_map]
  exact List.map_id ps

theorem admits_of_length {ms : List (Measurement ℝ)} {t : ℝ} (ht : 0 ≤ t) (hlen : ms.length = 6) :
    SVDSolver.Admits defaultCollection.modes ms t :=
  ⟨List.ne_nil_of_length_pos (by omega), by decide, ht.not_gt, by rw [hlen]; decide, by decide⟩

theorem length_ringMeasurements (R h : ℝ) (v : (Fin 3 → ℝ) → Fin 3 → ℝ) :
    (ringMeasurements (twoRings R h 3) v).length = 6 := by
  simp [ringMeasurements, twoRings]

/-- **The normal equations of a fit.** -/
theorem calculateSvdCoefficients_splits (hsvd : SolvesLeastSquares svd)
    (hbasis : m.basisCollection.HasFunctions f)
    (h : Ends svd m (.calculateSvdCoefficients ms 0) (.ok ()) m') :
    ∃ x : Fin m.basisCollection.modes → ℝ, FitsReadings f (cylindricMeasurements ms) x ∧
      ∀ p, m'.evaluateForPoint p = .ok ⟨fittedField f x p, .cylindric⟩ := by
  obtain ⟨hm', hmodes, x, hx, hmin⟩ := exists_minimiser hsvd hbasis rfl h
  exact ⟨x, fitsReadings hmin, evaluateForPoint_fitted hbasis hm' hmodes hx⟩

/-- `calculateSvdCoefficients_splits` for six sensors that all read the same. -/
theorem calculateSvdCoefficients_splits_rings : ∃ m' : AnalyticsManager ℝ, Ends leastSquaresSVD defaultManager
    (.calculateSvdCoefficients (ringMeasurements (twoRings 1 1 3) fun _ => 1) 0) (.ok ()) m' ∧
      ∃ x : Fin 10 → ℝ, FitsReadings modeFunction
        (cylindricMeasurements (ringMeasurements (twoRings 1 1 3) fun _ => 1)) x ∧
        ∀ p, m'.evaluateForPoint p = .ok ⟨fittedField modeFunction x p, .cylindric⟩ := by
  obtain ⟨m', h⟩ := exists_ends_fit leastSquaresSVD (m := defaultManager) hasFunctions_default rfl
    (admits_of_length le_rfl (length_ringMeasurements 1 1 fun _ => 1))
  exact ⟨m', h, calculateSvdCoefficients_splits solvesLeastSquares_leastSquaresSVD hasFunctions_default h⟩

end AnalyticsManager

end TPC.Analytics
