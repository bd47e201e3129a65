import TPC.Analytics.Coherence

/-!
# How a measurement is expressed

A sensor off the axis can be given in Cartesian or cylindrical components, and so can the field it
reads. `calculate_svd_coefficients` converts the position and takes the field components as they
are.

* `Sensor`, `Sensor.measurement`: one reading and its four expressions;
* `SameFit`: two expressions of the same readings give the same design and the same end;
* **`sameFit_iff`**: exactly when the fit does not depend on the expression.
-/

namespace TPC.Analytics

open Arith Fold

/-- A position off the axis, by its cylindrical components, and the cylindrical components of the
field there. -/
structure Sensor where
  r : ℝ
  phi : ℝ
  z : ℝ
  field : Fin 3 → ℝ
  r_pos : 0 < r
  phi_mem : phi ∈ Set.Ioc (-Real.pi) Real.pi

/-- The types of the components of a position and of a field vector. -/
abbrev Expression : Type := CoordinateType × CoordinateType

namespace Sensor

/-- The position, in components of the given type. -/
noncomputable def point (s : Sensor) : CoordinateType → PointComponents ℝ
  | .cartesian => ⟨![s.r * Real.cos s.phi, s.r * Real.sin s.phi, s.z], .cartesian⟩
  | .cylindric => ⟨![s.r, s.phi, s.z], .cylindric⟩

/-- The field vector, in components of the given type. -/
noncomputable def fieldVector (s : Sensor) : CoordinateType → FieldComponents ℝ
  | .cartesian =>
    ⟨![s.field 0 * Real.cos s.phi - s.field 1 * Real.sin s.phi,
      s.field 0 * Real.sin s.phi + s.field 1 * Real.cos s.phi, s.field 2], .cartesian⟩
  | .cylindric => ⟨s.field, .cylindric⟩

/-- The reading, with the types chosen for the position and for the field. -/
noncomputable def measurement (s : Sensor) (e : Expression) : Measurement ℝ :=
  ⟨s.point e.1, s.fieldVector e.2⟩

theorem transformCoordinates_point (s : Sensor) (t : CoordinateType) :
    (s.point t).transformCoordinates .cylindric = s.point .cylindric := by
  cases t with
  | cylindric => rfl
  | cartesian =>
    have hpair := transformPair_cylindric (.inl ⟨s.r_pos, s.phi_mem⟩)
    have hr := congrArg Prod.fst hpair
    have hphi := congrArg Prod.snd hpair
    rw [PointComponents.transformCoordinates_of_ne (by simp [point])]
    simp only [point, Matrix.cons_val_zero, Matrix.cons_val_one]
    exact congrArg₂ (fun a b => (⟨![a, b, s.z], .cylindric⟩ : PointComponents ℝ)) hr hphi

/-- The components of the field are the same in both expressions. -/
def SameComponents (s : Sensor) (e e' : Expression) : Prop :=
  e.2 = e'.2 ∨ s.phi = 0 ∨ s.field 0 = 0 ∧ s.field 1 = 0

end Sensor

/-- A rotation fixes a vector when its angle is zero or the vector is. -/
theorem rotate_eq_iff {phi a b : ℝ} (h : phi ∈ Set.Ioc (-Real.pi) Real.pi) :
    (a * Real.cos phi - b * Real.sin phi = a ∧ a * Real.sin phi + b * Real.cos phi = b) ↔
      phi = 0 ∨ a = 0 ∧ b = 0 := by
  constructor
  · rintro ⟨h₁, h₂⟩
    by_cases hab : a = 0 ∧ b = 0
    · exact .inr hab
    have hpos : 0 < a * a + b * b := by
      rcases not_and_or.mp hab with ha | hb
      · have := mul_self_pos.mpr ha
        nlinarith [mul_self_nonneg b]
      · have := mul_self_pos.mpr hb
        nlinarith [mul_self_nonneg a]
    have hcos : (a * a + b * b) * (Real.cos phi - 1) = 0 := by linear_combination a * h₁ + b * h₂
    have hcos' : Real.cos phi = 1 := by
      have := (mul_eq_zero.mp hcos).resolve_left hpos.ne'
      linarith
    have hpi := Real.pi_pos
    exact .inl ((Real.cos_eq_one_iff_of_lt_of_lt (by linarith [h.1]) (by linarith [h.2])).mp hcos')
  · rintro (rfl | ⟨rfl, rfl⟩) <;> simp

theorem Sensor.fieldVector_eq_iff (s : Sensor) (e e' : Expression) :
    (s.fieldVector e.2).components = (s.fieldVector e'.2).components ↔ s.SameComponents e e' := by
  have hrot : (s.fieldVector .cartesian).components = (s.fieldVector .cylindric).components ↔
      s.phi = 0 ∨ s.field 0 = 0 ∧ s.field 1 = 0 := by
    rw [← rotate_eq_iff s.phi_mem]
    simp [fieldVector, funext_iff, Fin.forall_fin_succ]
  unfold SameComponents
  rcases e with ⟨-, _ | _⟩ <;> rcases e' with ⟨-, _ | _⟩
  · simp
  · simpa using hrot
  · simpa [eq_comm] using hrot
  · simp

section Expressions

open AnalyticsManager SVDSolver

variable {α : Type} (l : List α) (s : α → Sensor) (e e' : α → Expression)

/-- The measurements of the readings `l`, each in its own expression. -/
noncomputable def expressed : List (Measurement ℝ) := l.map fun a => (s a).measurement (e a)

variable {l s e e'} {basis : Fin 3 → HeaderFunction ℝ} {modes : ℕ} {t : ℝ}

theorem cylindricMeasurements_expressed : cylindricMeasurements (expressed l s e) =
    l.map fun a => ⟨(s a).point .cylindric, (s a).fieldVector (e a).2⟩ := by
  rw [cylindricMeasurements, expressed, List.map_map]
  refine List.map_congr_left fun a _ => ?_
  rw [Function.comp_apply, Sensor.measurement, Sensor.transformCoordinates_point]

theorem admits_expressed : Admits modes (cylindricMeasurements (expressed l s e)) t ↔
    Admits modes (cylindricMeasurements (expressed l s e')) t := by
  rw [cylindricMeasurements_expressed, cylindricMeasurements_expressed]
  constructor <;> rintro ⟨h₁, h₂, h₃, h₄, h₅⟩ <;> exact ⟨by simpa using h₁, h₂, h₃, by simpa using h₄, h₅⟩

theorem design_expressed (h : Admits modes (cylindricMeasurements (expressed l s e)) t) :
    design (cylindricMeasurements (expressed l s e)) (List.ofFn basis) modes t =
      (l.mapM fun a => rowsOf basis modes ((s a).point .cylindric).components) >>= fun rows =>
        .ok ⟨modes, flat rows, flat (l.map fun a => valuesOf ((s a).measurement (e a)))⟩ := by
  rw [design_eq _ _ h, cylindricMeasurements_expressed, List.mapM_map, List.map_map]
  rfl

/-- Every basis function returns for every mode at every sensor. -/
def CallsReturn (basis : Fin 3 → HeaderFunction ℝ) (modes : ℕ) (l : List α) (s : α → Sensor) :
    Prop :=
  ∀ a ∈ l, ∀ i, ∀ k < modes, ∃ v, (basis i).call k (s a).r (s a).phi (s a).z = .ok v

theorem valuesOf_eq_iff {m m' : Measurement ℝ} : valuesOf m = valuesOf m' ↔
    m.fieldComponents.components = m'.fieldComponents.components := by
  constructor
  · intro h
    rw [← toArray_self m.fieldComponents.components, ← toArray_self m'.fieldComponents.components]
    exact congrArg toArray h
  · intro h
    rw [valuesOf, valuesOf, h]

variable (l s e e' basis modes t) in
/-- **Two expressions of the same readings give the same design** when there is no design, and
otherwise exactly when no reading changes the components of its field. -/
theorem design_expressed_iff : design (cylindricMeasurements (expressed l s e)) (List.ofFn basis)
      modes t = design (cylindricMeasurements (expressed l s e')) (List.ofFn basis) modes t ↔
    (Admits modes (cylindricMeasurements (expressed l s e)) t → CallsReturn basis modes l s →
      ∀ a ∈ l, (s a).SameComponents (e a) (e' a)) := by
  by_cases ha : Admits modes (cylindricMeasurements (expressed l s e)) t
  swap
  · refine ⟨fun _ h => absurd h ha, fun _ => design_congr ?_ ha⟩
    simp [cylindricMeasurements, expressed]
  rw [design_expressed ha, design_expressed (admits_expressed.mp ha)]
  have hcalls : (∃ rows, l.mapM (fun a => rowsOf basis modes ((s a).point .cylindric).components) =
      .ok rows) ↔ CallsReturn basis modes l s := by
    simp only [exists_mapM_eq_ok, exists_rowsOf]
    rfl
  cases hrows : l.mapM fun a => rowsOf basis modes ((s a).point .cylindric).components with
  | error x =>
    rw [hrows] at hcalls
    refine ⟨fun _ _ hc => ?_, fun _ => rfl⟩
    obtain ⟨rows, hrows⟩ := hcalls.mpr hc
    cases hrows
  | ok rows =>
    have hc : CallsReturn basis modes l s := hcalls.mp ⟨rows, hrows⟩
    simp only [ok_bind, Except.ok.injEq, Design.mk.injEq, true_and, flat_injective.eq_iff,
      List.map_inj_left, ha, hc, forall_const]
    exact forall₂_congr fun a _ => valuesOf_eq_iff.trans (Sensor.fieldVector_eq_iff _ _ _)

/-- Two fits of a manager: the same matrix and right-hand side, and the same ways to end. -/
structure SameFit (svd : JacobiSVD ℝ) (m : AnalyticsManager ℝ) (ms ms' : List (Measurement ℝ))
    (t : ℝ) : Prop where
  design : design (cylindricMeasurements ms) m.basisCollection.basis m.basisCollection.modes t =
    design (cylindricMeasurements ms') m.basisCollection.basis m.basisCollection.modes t
  ends : ∀ r m', Ends svd m (.calculateSvdCoefficients ms t) r m' ↔
    Ends svd m (.calculateSvdCoefficients ms' t) r m'

theorem sameFit_of_design {svd : JacobiSVD ℝ} {m : AnalyticsManager ℝ} {ms ms' : List (Measurement ℝ)}
    (hempty : ms.isEmpty = ms'.isEmpty)
    (h : SVDSolver.design (cylindricMeasurements ms) m.basisCollection.basis
        m.basisCollection.modes t =
      SVDSolver.design (cylindricMeasurements ms') m.basisCollection.basis
        m.basisCollection.modes t) : SameFit svd m ms ms' t := by
  refine ⟨h, fun r m' => ?_⟩
  have hsolve : solveSvd svd (cylindricMeasurements ms) m.basisCollection.basis
      m.basisCollection.modes t = solveSvd svd (cylindricMeasurements ms') m.basisCollection.basis
      m.basisCollection.modes t := by
    rw [solveSvd, solveSvd, h]
  change Prog.Reaches (calculateSvdCoefficients svd ms t) m _ m' ↔
    Prog.Reaches (calculateSvdCoefficients svd ms' t) m _ m'
  rw [calculateSvdCoefficients, calculateSvdCoefficients, Prog.reaches_get_bind,
    Prog.reaches_get_bind, hempty, hsolve]

/-- **The fit and the expression of the readings.** Two expressions of the same readings give the
same fit if the request is refused, if a basis function exits, or if no reading changes the
components of its field: the same type, the angle zero, or no field in the plane. Otherwise they
give different right-hand sides. -/
theorem sameFit_iff {svd : JacobiSVD ℝ} {m : AnalyticsManager ℝ}
    (hb : m.basisCollection.basis = List.ofFn basis) :
    SameFit svd m (expressed l s e) (expressed l s e') t ↔
      (0 ≤ t → l.length ≤ indexMax / 3 → m.basisCollection.modes ≤ indexMax →
        CallsReturn basis m.basisCollection.modes l s →
          ∀ a ∈ l, (s a).SameComponents (e a) (e' a)) := by
  have hdesign := design_expressed_iff l s e e' basis m.basisCollection.modes t
  have hadmits : Admits m.basisCollection.modes (cylindricMeasurements (expressed l s e)) t ↔
      l ≠ [] ∧ 0 ≤ t ∧ l.length ≤ indexMax / 3 ∧ m.basisCollection.modes ≤ indexMax := by
    rw [cylindricMeasurements_expressed]
    constructor
    · rintro ⟨h₁, -, h₃, h₄, h₅⟩
      exact ⟨by simpa using h₁, not_lt.mp h₃, by simpa using h₄, h₅⟩
    · rintro ⟨h₁, h₃, h₄, h₅⟩
      exact ⟨by simpa using h₁, m.basisCollection.modes_ne, not_lt.mpr h₃, by simpa using h₄, h₅⟩
  rw [← hb, hadmits] at hdesign
  constructor
  · intro h ht hlen hmodes hc a ha
    exact hdesign.mp h.design ⟨List.ne_nil_of_mem ha, ht, hlen, hmodes⟩ hc a ha
  · intro h
    refine sameFit_of_design (by simp [expressed]) (hdesign.mpr fun ha hc => ?_)
    exact h ha.2.1 ha.2.2.1 ha.2.2.2 hc

end Expressions

/-- A sensor at the angle `π / 2` with a radial field. -/
noncomputable def sideSensor : Sensor where
  r := 1
  phi := Real.pi / 2
  z := 0
  field := ![1, 0, 0]
  r_pos := one_pos
  phi_mem := ⟨by linarith [Real.pi_pos], by linarith [Real.pi_pos]⟩

/-- Its field in Cartesian components gives another right-hand side. -/
theorem not_forall_sameFit : ¬ ∀ (svd : JacobiSVD ℝ) (m : AnalyticsManager ℝ) (l : List Sensor)
    (e e' : Sensor → Expression) (t : ℝ), AnalyticsManager.Reachable svd m →
      m.basisCollection.basis.length = 3 → l ≠ [] →
        SameFit svd m (expressed l id e) (expressed l id e') t := by
  intro h
  have hsame := (h AnalyticsManager.columnSVD ⟨AnalyticsManager.oneBasis, none, false, []⟩
    [sideSensor] (fun _ => (.cylindric, .cylindric)) (fun _ => (.cylindric, .cartesian)) 0
    ⟨_, _, [], AnalyticsManager.create_oneBasis, .nil⟩ List.length_ofFn (by simp)).design
  have hcomp := (design_expressed_iff [sideSensor] id _ _ (fun _ => .ofFun fun _ _ _ _ => 1) 1 0).mp
    hsame ⟨by simp [expressed, AnalyticsManager.cylindricMeasurements], by decide, lt_irrefl _,
      by simp [expressed, AnalyticsManager.cylindricMeasurements, indexMax], by decide⟩
    (fun _ _ _ _ _ => ⟨1, rfl⟩) sideSensor List.mem_cons_self
  have hpi := Real.pi_pos
  simp [Sensor.SameComponents, sideSensor, hpi.ne'] at hcomp

/-- `sameFit_iff` for this sensor. -/
theorem sameFit_iff_sideSensor : SameFit AnalyticsManager.columnSVD
      ⟨AnalyticsManager.oneBasis, none, false, []⟩
      (expressed [sideSensor] id fun _ => (.cylindric, .cylindric))
      (expressed [sideSensor] id fun _ => (.cylindric, .cartesian)) 0 ↔
    ((0 : ℝ) ≤ 0 → [sideSensor].length ≤ indexMax / 3 → 1 ≤ indexMax →
      CallsReturn (fun _ => .ofFun fun _ _ _ _ => 1) 1 [sideSensor] id →
        ∀ a ∈ [sideSensor], a.SameComponents (.cylindric, .cylindric) (.cylindric, .cartesian)) :=
  sameFit_iff rfl

end TPC.Analytics
