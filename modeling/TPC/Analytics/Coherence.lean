import TPC.Analytics.FieldSpec
import TPC.Analytics.Lattice
import TPC.Analytics.SvdSpec

/-!
# The stored field and the stored coefficients over whole runs

`calculate_svd_coefficients` replaces the coefficients and leaves the stored field alone;
`calculate_field` invalidates the field before it looks at the grid.

* `Inv`, `inv_run`: a readable field is there, and coefficients with it;
* `Shows m fd`: every stored field triple is what `evaluate_for_point` returns in `m`;
* **`getFieldData_shows`**: a readable field is the one of the last successful `calculate_field`,
  and shows the current coefficients as long as none were stored since (`refitted`);
* `SameReadings`, **`sameReadings_iff`**: which failed calls leave everything readable unchanged.
-/

namespace TPC.Analytics.AnalyticsManager

open Arith

variable {F : Type} [Arith F] {svd : JacobiSVD F} {m₀ m m' : AnalyticsManager F}

/-- What holds between calls: a valid field is present, and the checks of `calculate_field` on the
state would pass. -/
structure Inv (m : AnalyticsManager F) : Prop where
  present : m.fieldDataValid = true → ∃ fd, m.fieldData = some fd
  arity : m.fieldDataValid = true → m.basisCollection.arity = kDimension
  coefficients : m.fieldDataValid = true → ¬ m.coefficientsMissing

omit [Arith F] in
theorem inv_create {basis : BasisCollection F} (h : create basis = .ok m) : Inv m := by
  unfold create at h
  split_ifs at h
  cases h
  exact ⟨nofun, nofun, nofun⟩

theorem not_coefficientsMissing_of_solveSvd {ms : List (Measurement F)} {t : F} {cs : List F}
    (h : SVDSolver.solveSvd svd ms m.basisCollection.basis m.basisCollection.modes t = .ok cs) :
    ¬ ({ m with storedCoefficients := cs } : AnalyticsManager F).coefficientsMissing := by
  obtain ⟨hm, hlen⟩ := SVDSolver.length_solveSvd h
  intro hc
  refine hc ?_
  dsimp only
  rw [toIndex_of_le hm, hlen]

/-- **Every call keeps the invariant.** -/
theorem inv_call {c : Command F} {r : Call Unit} (hm : Inv m) (h : Ends svd m c r m') : Inv m' := by
  cases c with
  | calculateSvdCoefficients ms t =>
    cases calculateSvdCoefficients_spec h with
    | stored cs hcs =>
      exact ⟨hm.present, hm.arity, fun _ => not_coefficientsMissing_of_solveSvd hcs⟩
    | failed e => exact hm
  | calculateField fuel g radius zLength =>
    cases calculateField_spec h with
    | completed fd₀ points bs ha hc => exact ⟨fun _ => ⟨_, rfl⟩, fun _ => ha.1, fun _ => ha.2.2⟩
    | rejected e ha => exact hm
    | abandoned e fd ha => exact ⟨nofun, nofun, nofun⟩

theorem inv_run {calls : List (Command F × Call Unit)} (h₀ : Inv m₀) (h : Run svd m₀ calls m) :
    Inv m := by
  induction h with
  | nil => exact h₀
  | call _ c r hc ih => exact inv_call ih hc

theorem Reachable.inv (h : Reachable svd m) : Inv m := by
  obtain ⟨basis, m₀, calls, hb, hr⟩ := h
  exact inv_run (inv_create hb) hr

/-! ## Coherence -/

/-- Every stored field triple is what `evaluate_for_point` returns at the coordinate triple. -/
def Shows (m : AnalyticsManager F) (fd : FieldCollection F) : Prop :=
  ∃ cs bs, fd.coordinates = Fold.flat cs ∧ fd.field = Fold.flat bs ∧
    List.Forall₂ (fun c b => m.evaluateForPoint (toArray c) = .ok ⟨toArray b, .cylindric⟩) cs bs

omit [Arith F] in
theorem getFieldData_eq_ok {fd : FieldCollection F} :
    m.getFieldData = .ok fd ↔ m.fieldDataValid = true ∧ m.fieldData = some fd := by
  unfold getFieldData
  cases m.fieldDataValid <;> cases m.fieldData <;> simp

theorem shows_of_calculateField {fuel : ℕ} {g : Fin 3 → ℕ} {radius zLength : F}
    (h : Ends svd m (.calculateField fuel g radius zLength) (.ok ()) m') :
    ∃ fd, m'.getFieldData = .ok fd ∧ Shows m' fd := by
  cases calculateField_spec h with
  | completed fd₀ points bs ha hc =>
    refine ⟨_, rfl, _, bs, rfl, rfl, List.Forall₂.imp (fun c b hcb => ?_) hc.field⟩
    have hm : ¬ (m.completed (stored fd₀ (points.map polar) bs)).coefficientsMissing := ha.2.2
    rw [evaluateForPoint_of_not_missing hm]
    exact congrArg (Except.map _) hcb

/-! ## A small manager -/

/-- Three functions that are constantly one, and one mode. -/
noncomputable def oneBasis : BasisCollection ℝ where
  arity := 3
  modes := 1
  basisType := .cylindric
  basis := List.ofFn fun _ : Fin 3 => .ofFun fun _ _ _ _ => 1
  arity_ne := by decide
  modes_ne := by decide
  modes_le := by decide
  size_le := by simp

/-- The least-squares solution for a matrix of one column. -/
noncomputable def columnSVD : JacobiSVD ℝ where
  solve d _ :=
    let column := d.matrix.flatten
    if d.columns = 1 then
      [(List.zipWith (· * ·) column d.values).sum / (column.map (· ^ 2)).sum]
    else List.replicate d.columns 0
  length_solve d _ := by
    dsimp only
    split_ifs with h
    · rw [h]
      rfl
    · exact List.length_replicate

/-- A sensor at `(1, 0, 0)` that reads `b` in every component. -/
def sensor (b : ℝ) : Measurement ℝ := ⟨⟨![1, 0, 0], .cylindric⟩, ⟨fun _ => b, .cylindric⟩⟩

/-- The manager of `oneBasis` with one stored coefficient. -/
noncomputable def fitted (fd : Option (FieldCollection ℝ)) (valid : Bool) (c : ℝ) :
    AnalyticsManager ℝ := ⟨oneBasis, fd, valid, [c]⟩

theorem solveSvd_sensor (b : ℝ) : SVDSolver.solveSvd columnSVD [sensor b] oneBasis.basis
    oneBasis.modes 0 = .ok [b] := by
  have hrows : SVDSolver.rowsOf (fun _ => .ofFun fun _ _ _ _ => 1) 1
      (sensor b).pointComponents.components = .ok ([(1 : ℝ)], [1], [1]) := rfl
  have ha : SVDSolver.Admits 1 [sensor b] 0 :=
    ⟨by simp, by decide, lt_irrefl _, by simp [indexMax], by decide⟩
  have hd : SVDSolver.design [sensor b] oneBasis.basis oneBasis.modes 0 = _ :=
    SVDSolver.design_eq (fun _ => .ofFun fun _ _ _ _ => 1) 1 ha
  rw [List.mapM_cons, hrows] at hd
  unfold SVDSolver.solveSvd
  rw [hd]
  refine congrArg (fun x => Except.ok [x]) ?_
  simp [Fold.flat, SVDSolver.valuesOf, sensor]
  ring

theorem ends_sensor {fd : Option (FieldCollection ℝ)} {valid : Bool} {cs : List ℝ} (b : ℝ) :
    Ends columnSVD ⟨oneBasis, fd, valid, cs⟩ (.calculateSvdCoefficients [sensor b] 0) (.ok ())
      (fitted fd valid b) :=
  ends_calculateSvdCoefficients (by simp) (by simp [oneBasis]) (solveSvd_sensor b)

theorem modeSumAt_fitted (fd : Option (FieldCollection ℝ)) (valid : Bool) (c : ℝ) (p : Fin 3 → ℝ) :
    (fitted fd valid c).modeSumAt p = .ok fun _ => c := by
  refine (modeSum_ofFun (fun _ _ _ _ _ => (1 : ℝ)) p (le_refl 1)).trans ?_
  simp [fitted, oneBasis]

theorem not_coefficientsMissing_fitted (fd : Option (FieldCollection ℝ)) (valid : Bool) (c : ℝ) :
    ¬ (fitted fd valid c).coefficientsMissing := fun h => h (by decide : (1 : ℤ) = toIndex 1)

theorem accepts_fitted (fd : Option (FieldCollection ℝ)) (valid : Bool) (c : ℝ) :
    (fitted fd valid c).Accepts (1 : ℝ) 1 :=
  ⟨rfl, by norm_num, not_coefficientsMissing_fitted fd valid c⟩

theorem enoughFuel_unit : EnoughFuel ![2, 2, 2] 1 10 := by
  have h₁ : √(3.0 : ℝ) ≤ 2 := by
    rw [Real.sqrt_le_left (by norm_num)]
    norm_num
  have h₂ : 1 ≤ √(3.0 : ℝ) := by
    rw [Real.one_le_sqrt]
    norm_num
  constructor
  · simp only [stepY, sqrt_real]
    generalize √(3.0 : ℝ) = s at h₁ h₂ ⊢
    norm_num
    linarith
  · simp only [stepX]
    norm_num

theorem exists_ends_unit (svd : JacobiSVD ℝ) {m : AnalyticsManager ℝ} (ha : m.Accepts 1 1)
    (hv : ∀ p, ∃ v, m.modeSumAt p = .ok v) :
    ∃ m', Ends svd m (.calculateField 10 (fun _ => 2) 1 1) (.ok ()) m' := by
  obtain ⟨points, hpoints, -⟩ := exists_gridPoints (g := fun _ => 2) le_rfl le_rfl le_rfl one_pos 1 enoughFuel_unit
  have hsize : points.length * 3 ≤ vectorMax := by
    have := length_gridPoints_le hpoints
    unfold vectorMax
    omega
  exact exists_ends_calculateField svd ha (fun _ => le_rfl) hpoints hsize fun _ _ => hv _

theorem exists_ends_constant : ∃ m', Ends columnSVD (fitted none false 1) (.calculateField 10 (fun _ => 2) 1 1)
    (.ok ()) m' :=
  exists_ends_unit columnSVD (accepts_fitted none false 1) fun p => ⟨_, modeSumAt_fitted none false 1 p⟩

theorem create_oneBasis : create oneBasis = .ok ⟨oneBasis, none, false, []⟩ := rfl

/-- A fit and a field from it. -/
theorem exists_readable : ∃ calls fd c cs bs,
    Run columnSVD ⟨oneBasis, none, false, []⟩ calls (fitted (some fd) true 1) ∧
      fd.coordinates = Fold.flat (c :: cs) ∧ fd.field = Fold.flat ((1, 1, 1) :: bs) := by
  have h₁ : Run columnSVD ⟨oneBasis, none, false, []⟩ _ (fitted none false 1) :=
    .call .nil _ _ (ends_sensor 1)
  obtain ⟨points, hp, hne⟩ := exists_gridPoints (g := fun _ => 2) le_rfl le_rfl le_rfl one_pos 1 enoughFuel_unit
  obtain ⟨m, hm⟩ := exists_ends_constant
  cases calculateField_spec hm with
  | completed fd₀ points' bs _ hc =>
    have hp' := hp.symm.trans hc.grid
    cases hp'
    obtain ⟨q, qs, rfl⟩ := List.exists_cons_of_ne_nil hne
    obtain ⟨b, bs', hb, -, rfl⟩ := List.forall₂_cons_left_iff.mp hc.field
    have hb' : b = (1, 1, 1) := by
      have h := hb.symm.trans (modeSumAt_fitted none false 1 _)
      have h' := Except.ok.inj h
      exact Prod.ext (congrFun h' 0) (Prod.ext (congrFun h' 1) (congrFun h' 2))
    exact ⟨_, _, _, _, bs', h₁.call _ _ hm, rfl, by rw [hb']; rfl⟩

/-! ## Runs -/

/-- Whether coefficients were stored after the last successful `calculate_field`. -/
def refitted : List (Command F × Call Unit) → Bool :=
  List.foldl (fun b call => match call with
    | (.calculateField .., .ok _) => false
    | (.calculateSvdCoefficients .., .ok _) => true
    | _ => b) false

omit [Arith F] in
theorem refitted_append (calls : List (Command F × Call Unit)) (call : Command F × Call Unit) :
    refitted (calls ++ [call]) = match call with
      | (.calculateField .., .ok _) => false
      | (.calculateSvdCoefficients .., .ok _) => true
      | _ => refitted calls := by
  rw [refitted, List.foldl_append]
  rfl

/-- `fd` is the field that the last successful `calculate_field` of the run left. -/
def LastField (svd : JacobiSVD F) (m₀ : AnalyticsManager F) (calls : List (Command F × Call Unit))
    (fd : FieldCollection F) : Prop :=
  ∃ before after fuel g radius zLength m₁,
    calls = before ++ (Command.calculateField fuel g radius zLength, .ok ()) :: after ∧
    (∀ call ∈ after, ∀ fuel g radius zLength,
      call ≠ (Command.calculateField fuel g radius zLength, .ok ())) ∧
    Run svd m₀ (before ++ [(Command.calculateField fuel g radius zLength, .ok ())]) m₁ ∧
    m₁.getFieldData = .ok fd ∧ Shows m₁ fd

theorem LastField.snoc {calls : List (Command F × Call Unit)} {fd : FieldCollection F}
    {call : Command F × Call Unit} (h : LastField svd m₀ calls fd)
    (hc : ∀ fuel g radius zLength, call ≠ (Command.calculateField fuel g radius zLength, .ok ())) :
    LastField svd m₀ (calls ++ [call]) fd := by
  obtain ⟨before, after, fuel, g, radius, zLength, m₁, rfl, hafter, hrest⟩ := h
  refine ⟨before, after ++ [call], fuel, g, radius, zLength, m₁, by simp, ?_, hrest⟩
  intro call' hmem
  rcases List.mem_append.mp hmem with hmem | hmem
  · exact hafter call' hmem
  · rw [List.mem_singleton.mp hmem]
    exact hc

/-- **Coherence over runs.** A readable field is the one of the last successful `calculate_field`,
with the field that `evaluate_for_point` gave then; while no coefficients have been stored since,
it is what `evaluate_for_point` gives now. -/
theorem getFieldData_shows {basis : BasisCollection F} {calls : List (Command F × Call Unit)}
    (hb : create basis = .ok m₀) (h : Run svd m₀ calls m) {fd : FieldCollection F}
    (hfd : m.getFieldData = .ok fd) :
    LastField svd m₀ calls fd ∧ (refitted calls = false → Shows m fd) := by
  induction h generalizing fd with
  | nil =>
    unfold create at hb
    split_ifs at hb
    cases hb
    cases hfd
  | @call calls m₁ m₂ hrun c r hc ih =>
    cases c with
    | calculateSvdCoefficients ms t =>
      have hne : ∀ fuel g radius zLength, (Command.calculateSvdCoefficients ms t, r) ≠
          (Command.calculateField fuel g radius zLength, .ok ()) := by
        intro _ _ _ _ he
        cases he
      rw [refitted_append]
      cases calculateSvdCoefficients_spec hc with
      | stored cs hcs => exact ⟨(ih hfd).1.snoc hne, nofun⟩
      | failed e => exact ⟨(ih hfd).1.snoc hne, (ih hfd).2⟩
    | calculateField fuel g radius zLength =>
      rw [refitted_append]
      rcases r with e | ⟨⟩
      · cases calculateField_spec hc with
        | rejected e ha => exact ⟨(ih hfd).1.snoc (fun _ _ _ _ he => by cases he), (ih hfd).2⟩
        | abandoned e fd' ha => cases hfd
      · obtain ⟨fd', hfd', hshows⟩ := shows_of_calculateField hc
        rw [hfd] at hfd'
        cases hfd'
        exact ⟨⟨calls, [], fuel, g, radius, zLength, m₂, rfl, by simp, .call hrun _ _ hc, hfd, hshows⟩,
          fun _ => hshows⟩

/-- After a second fit the readable field is still the one of the first. -/
theorem not_forall_shows : ¬ ∀ (svd : JacobiSVD ℝ) (m : AnalyticsManager ℝ)
    (fd : FieldCollection ℝ), Reachable svd m → m.getFieldData = .ok fd → Shows m fd := by
  intro h
  obtain ⟨calls, fd, c, cs, bs, hrun, hcs, hbs⟩ := exists_readable
  have hreach : Reachable columnSVD (fitted (some fd) true 2) :=
    ⟨_, _, _, create_oneBasis, hrun.call _ _ (ends_sensor 2)⟩
  obtain ⟨cs', bs', hcs', hbs', hall⟩ := h _ _ fd hreach rfl
  rw [hcs] at hcs'
  rw [hbs] at hbs'
  rw [← Fold.flat_injective hcs', ← Fold.flat_injective hbs'] at hall
  have hb := (List.forall₂_cons.mp hall).1
  rw [evaluateForPoint_of_not_missing (not_coefficientsMissing_fitted _ _ _), modeSumAt_fitted] at hb
  have hval := congrArg FieldComponents.components (Except.ok.inj hb)
  have h₂ : (2 : ℝ) = 1 := congrFun hval 0
  norm_num at h₂

/-- `getFieldData_shows` after a fit and a field. -/
theorem getFieldData_shows_readable : ∃ calls m fd,
    Run columnSVD ⟨oneBasis, none, false, []⟩ calls m ∧ m.getFieldData = .ok fd ∧
      LastField columnSVD ⟨oneBasis, none, false, []⟩ calls fd ∧
      (refitted calls = false → Shows m fd) := by
  obtain ⟨calls, fd, c, cs, bs, hrun, -, -⟩ := exists_readable
  exact ⟨calls, _, fd, hrun, rfl, getFieldData_shows create_oneBasis hrun rfl⟩

/-! ## Failed calls -/

/-- `get_field_data`, `evaluate_for_point` and `evaluate_field_slice` give the same results. -/
structure SameReadings (m m' : AnalyticsManager F) : Prop where
  field : m'.getFieldData = m.getFieldData
  point : ∀ c, m'.evaluateForPoint c = m.evaluateForPoint c
  slice : ∀ direction coordinate grid radius zLength stopRequested,
    m'.evaluateFieldSlice direction coordinate grid radius zLength stopRequested =
      m.evaluateFieldSlice direction coordinate grid radius zLength stopRequested

/-- The calls whose failure leaves all readings alone: a fit, a `calculate_field` with arguments
that `validate` refuses, a `calculate_field` when there is no field to lose. -/
def KeepsReadings (m : AnalyticsManager F) : Command F → Prop
  | .calculateSvdCoefficients .. => True
  | .calculateField _ _ radius zLength =>
    radius ≤ 0 ∨ zLength ≤ 0 ∨ ∀ fd, m.getFieldData ≠ .ok fd

/-- A manager whose buffers were being rewritten evaluates as before. -/
theorem sameReadings_rewriting {fd : Option (FieldCollection F)} :
    SameReadings m (m.rewriting fd) ↔ ∀ fd, m.getFieldData ≠ .ok fd := by
  constructor
  · intro h fd' hfd'
    have := h.field.symm.trans (rfl : (m.rewriting fd).getFieldData = _)
    rw [hfd'] at this
    cases this
  · refine fun h => ⟨?_, fun _ => rfl, fun _ _ _ _ _ _ => rfl⟩
    change Except.error _ = _
    unfold getFieldData
    split
    · next fd' hv hd => exact absurd (getFieldData_eq_ok.mpr ⟨hv, hd⟩) (h fd')
    · rfl

/-- **Error atomicity**: exactly these calls leave all readings as they were when they fail with an
error. Whenever a field is readable, a positive radius and length let `calculate_field` discard it
before the grid is checked. -/
theorem sameReadings_iff (hm : Reachable svd m) {c : Command F} {e : String}
    (h : Ends svd m c (.error (.unexpected e)) m') : SameReadings m m' ↔ KeepsReadings m c := by
  have hrefl : SameReadings m m := ⟨rfl, fun _ => rfl, fun _ _ _ _ _ _ => rfl⟩
  cases c with
  | calculateSvdCoefficients ms t =>
    cases calculateSvdCoefficients_spec h
    exact ⟨fun _ => trivial, fun _ => hrefl⟩
  | calculateField fuel g radius zLength =>
    cases calculateField_spec h with
    | rejected e ha =>
      refine ⟨fun _ => ?_, fun _ => hrefl⟩
      by_contra hk
      simp only [KeepsReadings, not_or, not_forall, not_not] at hk
      obtain ⟨hr, hz, fd, hfd⟩ := hk
      have hv := (getFieldData_eq_ok.mp hfd).1
      exact ha ⟨hm.inv.arity hv, not_or.mpr ⟨hr, hz⟩, hm.inv.coefficients hv⟩
    | abandoned e fd ha =>
      obtain ⟨hr, hz⟩ := not_or.mp ha.2.1
      rw [sameReadings_rewriting, KeepsReadings, or_iff_right hr, or_iff_right hz]

/-- A grid with one column is refused, and the field that was readable before is lost. -/
theorem not_forall_sameReadings : ¬ ∀ (svd : JacobiSVD ℝ) (m m' : AnalyticsManager ℝ)
    (c : Command ℝ) (e : String), Reachable svd m → Ends svd m c (.error (.unexpected e)) m' →
      SameReadings m m' := by
  intro h
  obtain ⟨calls, fd, c, cs, bs, hrun, -, -⟩ := exists_readable
  have hreach : Reachable columnSVD (fitted (some fd) true 1) := ⟨_, _, _, create_oneBasis, hrun⟩
  obtain ⟨m', hm'⟩ := exists_ends_calculateField_refused columnSVD 10 (g := ![1, 2, 2])
    (accepts_fitted (some fd) true 1) (.inl (by decide))
  have hsame := h _ _ _ _ _ hreach hm'
  cases calculateField_spec hm' with
  | rejected e ha => exact ha (accepts_fitted (some fd) true 1)
  | abandoned e fd' ha => exact sameReadings_rewriting.mp hsame fd rfl

/-- `sameReadings_iff` for this call. -/
theorem sameReadings_iff_refused : ∃ (m m' : AnalyticsManager ℝ) (c : Command ℝ) (e : String),
    Reachable columnSVD m ∧ Ends columnSVD m c (.error (.unexpected e)) m' ∧
      (SameReadings m m' ↔ KeepsReadings m c) := by
  obtain ⟨calls, fd, c, cs, bs, hrun, -, -⟩ := exists_readable
  obtain ⟨m', hm'⟩ := exists_ends_calculateField_refused columnSVD 10 (g := ![1, 2, 2])
    (accepts_fitted (some fd) true 1) (.inl (by decide))
  have hreach : Reachable columnSVD (fitted (some fd) true 1) := ⟨_, _, _, create_oneBasis, hrun⟩
  exact ⟨_, m', _, _, hreach, hm', sameReadings_iff hreach hm'⟩

end TPC.Analytics.AnalyticsManager
