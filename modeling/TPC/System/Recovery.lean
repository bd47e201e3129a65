import TPC.System.Requests
import TPC.System.TestFrame

/-!
# What the file shows

The field worker of a `TPC`, with the default basis: from the readings of a request to the file of an export.

* `createManager`: the manager that the constructor makes;
* `gradientAt`, `vectors_eq`: the vectors of a file are the gradient of one harmonic polynomial;
* **`magnetostatic_after_event`**: after an event with `true`, whatever has been read;
* **`field_after_event`**: when the sensors of the chamber have read a field of the basis, it is that field.
-/

namespace TPC.System.Recovery

open Analytics AnalyticsManager FieldWorker Requests Pipeline Vtk TestFrame MvPolynomial Potential
open Arith hiding max

theorem defaultModesCount_le : defaultModesCount ≤ sizeMax := by decide

/-- The manager that `TPC::TPC` makes. -/
def createManager {F : Type} [Arith F] : Call (AnalyticsManager F) := do
  let basis ← createDefaultBasis (ofModel defaultBasisR) (ofModel defaultBasisPhi) (ofModel defaultBasisZ)
    defaultModesCount defaultModesCount_le
  create basis

variable {svd : JacobiSVD ℝ} {m m₀ : AnalyticsManager ℝ} {s : Requests.State ℝ} {r : Request ℝ} {c : Fin 10 → ℝ}

theorem createManager_eq : createManager = .ok defaultManager := rfl

theorem isDefault_of_createManager (h : createManager = .ok m) : m.IsDefault := by
  rw [createManager_eq] at h
  cases h
  exact isDefault_defaultManager

theorem svdThreshold_le : (svdThreshold : ℝ) ≤ 1 / 100 := by
  rw [svdThreshold]
  norm_num

/-! ## The vectors of a file -/

/-- The gradient of a polynomial at a Cartesian point. -/
noncomputable def gradientAt (P : MvPolynomial (Fin 3) ℝ) (p : CartesianPoint ℝ) : ℝ × ℝ × ℝ :=
  let g := gradient (fun q => eval q P) ![p.x, p.y, p.z]
  (g 0, g 1, g 2)

theorem position_polar {p : CartesianPoint ℝ} (h : ¬ Near (p.x, p.y, p.z)) :
    position (polar (p.x, p.y, p.z)).1 (polar (p.x, p.y, p.z)).2.1 (polar (p.x, p.y, p.z)).2.2 = ![p.x, p.y, p.z] := by
  have hpoint := toPoint_polar h
  injection hpoint with hx hy hz
  rw [position]
  exact congrArg₂ _ hx (congrArg₂ _ hy (congrArg₂ _ hz rfl))

theorem eq_gradientAt (hm : m.IsDefault) (hc : m.storedCoefficients = List.ofFn c) {p : CartesianPoint ℝ}
    {v : ℝ × ℝ × ℝ} (hp : ¬ Near (p.x, p.y, p.z)) (h : FieldAt m p v) : v = gradientAt (totalPotential c) p := by
  obtain ⟨b, hb, rfl⟩ := h
  rw [hm.evaluateForPoint hc] at hb
  have hcomponents : modeTotal c (toArray (polar (p.x, p.y, p.z))) = toArray b := by
    injection hb with hb
    injection hb
  have hrotated : rotated (polar (p.x, p.y, p.z)).2.1 (toArray b) =
      gradient (fun q => eval q (totalPotential c)) ![p.x, p.y, p.z] := by
    rw [gradient_totalPotential, ← hcomponents, modeTotal, rotated_sum, ← position_polar hp]
    exact Finset.sum_congr rfl fun k _ => congrArg _ (rotated_modeVector k _ _ _)
  rw [gradientAt, ← hrotated]
  rfl

theorem vectors_eq (hm : m.IsDefault) (hc : m.storedCoefficients = List.ofFn c) {points : List (CartesianPoint ℝ)}
    {vectors : List (ℝ × ℝ × ℝ)} (hapart : ∀ p ∈ points, ¬ Near (p.x, p.y, p.z))
    (h : List.Forall₂ (FieldAt m) points vectors) : vectors = points.map (gradientAt (totalPotential c)) := by
  induction h with
  | nil => rfl
  | cons hv _ ih =>
    rw [List.map_cons, eq_gradientAt hm hc (hapart _ List.mem_cons_self) hv,
      ih fun p hp => hapart p (List.mem_cons_of_mem _ hp)]

/-- A file that shows the gradient of a polynomial on the points of the clipped lattice, on a mesh that fills
it. -/
def Shows (P : MvPolynomial (Fin 3) ℝ) (r : Request ℝ) (m : AnalyticsManager ℝ) (file : VtkFile ℝ) : Prop :=
  ∃ rows grid, Pictures m r.data.grid r.data.radius r.data.length rows file grid ∧
    grid.vectors = grid.points.map (gradientAt P)

section Event

variable (hm : createManager = .ok m₀) (hs : Reaches svd ⟨.init, m₀⟩ s)
  (hlast : s.worker.fired.getLast? = some (r, true)) (hidle : s.worker.phase.request = none)

include hm hs hlast hidle

theorem isDefault_after_event : s.manager.IsDefault := by
  have hdefault := isDefault_of_createManager hm
  have hbasis := (leftBy_after_event hs hlast hidle).basis
  exact ⟨hbasis ▸ hdefault.basis, hbasis ▸ hdefault.modes⟩

theorem shows_after_event (hc : s.manager.storedCoefficients = List.ofFn c)
    (hres : Resolved r.data.grid r.data.radius r.data.length)
    (hnear : ∀ fuel points, gridPoints fuel r.data.grid r.data.radius r.data.length = some points →
      ∀ p ∈ points, ¬ Near p) {fs : FileSystem} {path : String} (hpath : path ≠ "") (hfs : fs.Works path) :
    ∃ file, Export.exportToVtk (export3dFieldToVtk fs) s.manager path = .ok file ∧
      Shows (totalPotential c) r s.manager file := by
  obtain ⟨rows, file, grid, hfile, hpicture⟩ :=
    (leftBy_after_event hs hlast hidle).picture hres hnear fs path hpath hfs
  exact ⟨file, hfile, rows, grid, hpicture,
    vectors_eq (isDefault_after_event hm hs hlast hidle) hc hpicture.apart hpicture.vectors⟩

theorem exists_fit_after_event : ∃ m m₁, m.IsDefault ∧ m₁.storedCoefficients = s.manager.storedCoefficients ∧
    Ends svd m (.calculateSvdCoefficients r.data.measurements svdThreshold) (.ok ()) m₁ := by
  obtain ⟨m, m₁, hbasis, hstored, hfit⟩ := (leftBy_after_event hs hlast hidle).fit
  have hdefault := isDefault_of_createManager hm
  exact ⟨m, m₁, ⟨hbasis ▸ hdefault.basis, hbasis ▸ hdefault.modes⟩, hstored, hfit⟩

theorem exists_stored_after_event : ∃ c : Fin 10 → ℝ, s.manager.storedCoefficients = List.ofFn c := by
  obtain ⟨m, m₁, hdefault, hstored, hfit⟩ := exists_fit_after_event hm hs hlast hidle
  cases calculateSvdCoefficients_spec hfit with
  | stored cs hcs =>
    have hlength := (SVDSolver.length_solveSvd hcs).2
    rw [hdefault.modes] at hlength
    refine ⟨fun k => cs.get (k.cast hlength.symm), hstored.symm.trans ?_⟩
    exact List.ext_getElem (hlength.trans List.length_ofFn.symm) fun k hk hk' => (List.getElem_ofFn hk').symm

/-- **The file shows a magnetostatic field**, whatever the request has read and however its fit has been solved:
the vectors are the gradient of one harmonic polynomial at all points. -/
theorem magnetostatic_after_event (hres : Resolved r.data.grid r.data.radius r.data.length)
    (hnear : ∀ fuel points, gridPoints fuel r.data.grid r.data.radius r.data.length = some points →
      ∀ p ∈ points, ¬ Near p) {fs : FileSystem} {path : String} (hpath : path ≠ "") (hfs : fs.Works path) :
    ∃ P file, laplacian P = 0 ∧ Export.exportToVtk (export3dFieldToVtk fs) s.manager path = .ok file ∧
      Shows P r s.manager file := by
  obtain ⟨c, hc⟩ := exists_stored_after_event hm hs hlast hidle
  obtain ⟨file, hfile, hshows⟩ := shows_after_event hm hs hlast hidle hc hres hnear hpath hfs
  exact ⟨totalPotential c, file, laplacian_totalPotential c, hfile, hshows⟩

/-- **The file shows the field in the chamber**: when `n ≥ 5` sensors on each base have read a field of the
basis, with a constant azimuthal error on each base, the event with `true` leaves that field. Every position
evaluates to it, and the vectors of the file are the gradient of its potential at all points. -/
theorem field_after_event (hsvd : SolvesTruncated svd) {n : ℕ} (hn : 5 ≤ n) {bias : ℝ → ℝ}
    (hreadings : r.data.measurements.Perm (ringMeasurements (twoRings radius halfLength n) (biased c bias)))
    (hres : Resolved r.data.grid r.data.radius r.data.length)
    (hnear : ∀ fuel points, gridPoints fuel r.data.grid r.data.radius r.data.length = some points →
      ∀ p ∈ points, ¬ Near p) {fs : FileSystem} {path : String} (hpath : path ≠ "") (hfs : fs.Works path) :
    (∀ p, s.manager.evaluateForPoint p = .ok ⟨modeTotal c p, .cylindric⟩) ∧
      ∃ file, Export.exportToVtk (export3dFieldToVtk fs) s.manager path = .ok file ∧
        Shows (totalPotential c) r s.manager file := by
  obtain ⟨m, m₁, hdefault, hstored, hfit⟩ := exists_fit_after_event hm hs hlast hidle
  obtain ⟨ht, -, _, S, hx⟩ := exists_defaultTruncated hsvd hdefault hfit
  rw [radius_eq, halfLength_eq] at hreadings
  have hc : s.manager.storedCoefficients = List.ofFn c := by
    rw [← hstored, hx, truncatedFit_eq hn ht svdThreshold_le hreadings S]
  exact ⟨(isDefault_after_event hm hs hlast hidle).evaluateForPoint hc,
    shows_after_event hm hs hlast hidle hc hres hnear hpath hfs⟩

end Event

/-! ## Five sensors on each base -/

/-- Readings of all ten modes, with different errors on the two bases. -/
noncomputable def chamberData : CalculationData ℝ :=
  ⟨fun _ => 2, ringMeasurements (twoRings radius halfLength 5) (biased (fun _ => 1) fun z => z + 2), 1, 1⟩

theorem length_chamberData : chamberData.measurements.length = 10 := by
  simp [chamberData, ringMeasurements, twoRings]

theorem exists_ends_chamberData : ∃ m₁ m', Ends truncatedSVD defaultManager
    (.calculateSvdCoefficients chamberData.measurements svdThreshold) (.ok ()) m₁ ∧
      Ends truncatedSVD m₁ (.calculateField 10 (fun _ => 2) 1 1) (.ok ()) m' := by
  have ha : SVDSolver.Admits defaultCollection.modes chamberData.measurements (svdThreshold : ℝ) :=
    ⟨List.ne_nil_of_length_pos (by rw [length_chamberData]; decide), by decide, by norm_num [svdThreshold],
      by rw [length_chamberData]; decide, by decide⟩
  obtain ⟨m₁, h₁⟩ := exists_ends_fit truncatedSVD (m := defaultManager) hasFunctions_default rfl ha
  obtain ⟨-, hm₁, _, S, hx⟩ := exists_defaultTruncated solvesTruncated_truncatedSVD isDefault_defaultManager h₁
  have hbasis := basisCollection_fit h₁
  have hmissing : ¬ m₁.coefficientsMissing := fun hne => hne (by rw [hx, hm₁.modes_eq, List.length_ofFn]; decide)
  have hv : ∀ p, ∃ v, m₁.modeSumAt p = .ok v := by
    intro p
    have heval := hm₁.evaluateForPoint hx p
    rw [evaluateForPoint_of_not_missing hmissing] at heval
    cases h : m₁.modeSumAt p with
    | ok v => exact ⟨v, rfl⟩
    | error e =>
      rw [h] at heval
      cases heval
  obtain ⟨m', h₂⟩ := exists_ends_unit truncatedSVD ⟨hbasis ▸ rfl, by norm_num, hmissing⟩ hv
  exact ⟨m₁, m', h₁, h₂⟩

theorem exists_served_chamber : ∃ s : Requests.State ℝ, Reaches truncatedSVD ⟨.init, defaultManager⟩ s ∧
    s.worker.fired.getLast? = some (⟨0, chamberData⟩, true) ∧ s.worker.phase.request = none := by
  obtain ⟨m₁, m', h₁, h₂⟩ := exists_ends_chamberData
  have hne : chamberData.measurements.isEmpty = false := by
    rw [List.isEmpty_eq_false_iff, ← List.length_pos_iff, length_chamberData]
    decide
  obtain ⟨s, hs, hfired, hidle⟩ := exists_served chamberData hne h₁ h₂
  exact ⟨s, hs, by rw [hfired]; rfl, hidle⟩

/-- `magnetostatic_after_event` for them. -/
theorem magnetostatic_after_event_chamber : ∃ (s : Requests.State ℝ) (P : MvPolynomial (Fin 3) ℝ)
    (file : VtkFile ℝ), Reaches truncatedSVD ⟨.init, defaultManager⟩ s ∧ laplacian P = 0 ∧
      Export.exportToVtk (export3dFieldToVtk workingFiles) s.manager "field.vtk" = .ok file ∧
      Shows P ⟨0, chamberData⟩ s.manager file := by
  obtain ⟨s, hs, hlast, hidle⟩ := exists_served_chamber
  obtain ⟨P, file, hP, hfile, hshows⟩ := magnetostatic_after_event createManager_eq hs hlast hidle
    resolved_unit (fun fuel points hp => not_near_unit hp) (by decide : "field.vtk" ≠ "") works_workingFiles
  exact ⟨s, P, file, hs, hP, hfile, hshows⟩

/-- `field_after_event` for them. -/
theorem field_after_event_chamber : ∃ (s : Requests.State ℝ) (file : VtkFile ℝ),
    Reaches truncatedSVD ⟨.init, defaultManager⟩ s ∧
      s.manager.evaluateForPoint ![1, 2, 3] = .ok ⟨modeTotal (fun _ => 1) ![1, 2, 3], .cylindric⟩ ∧
      Export.exportToVtk (export3dFieldToVtk workingFiles) s.manager "field.vtk" = .ok file ∧
      Shows (totalPotential fun _ => 1) ⟨0, chamberData⟩ s.manager file := by
  obtain ⟨s, hs, hlast, hidle⟩ := exists_served_chamber
  obtain ⟨heval, file, hfile, hshows⟩ := field_after_event (r := ⟨0, chamberData⟩) createManager_eq hs hlast hidle
    solvesTruncated_truncatedSVD le_rfl (.refl _) resolved_unit (fun fuel points hp => not_near_unit hp)
    (by decide : "field.vtk" ≠ "") works_workingFiles
  exact ⟨s, file, hs, heval _, hfile, hshows⟩

end TPC.System.Recovery
