import TPC.Analytics.Conditioning
import TPC.Lib.UnorderedMap

/-!
# The test frame

`TPC::create_test_frame`: a frame for the twelve sensors of the two bases, made without a server.

* `TpcGeometry`, `axialCurvature`, `axialOffset`, `angularCoefficient`, `sensorField`;
* `createTestFrame`; `lookup_createTestFrame`: no name is given twice;
* `Reads`, `sensors`: the measurements that a frame stands for;
* **`evaluateForPoint_testFrame`**: the field that is fitted to the test frame.
-/

namespace TPC.System

open Arith Analytics

variable {F : Type} [Arith F]

namespace TpcGeometry

/-- `models::TpcGeometry`. -/
def kRadius : F := 4.0

def kLength : F := 7.0

end TpcGeometry

namespace TestFrame

def sensorsPerBase : ℕ := 6

def radialFieldAtEndGauss : F := 0.5

def azimuthalSensorBiasGauss : F := 0.5

def axialFieldAtSensorsGauss : F := 5000.0

def angularVariationGauss : F := 0.02

def radius : F := TpcGeometry.kRadius

def halfLength : F := TpcGeometry.kLength * 0.5

def axialCurvature : F := -radialFieldAtEndGauss / (radius * halfLength)

def axialOffset : F :=
  axialFieldAtSensorsGauss - axialCurvature * (halfLength * halfLength - 0.5 * radius * radius)

def angularCoefficient : F := angularVariationGauss / halfLength

/-- The height of a base. -/
def baseZ (base : Char) : F := if base = 'E' then halfLength else -halfLength

/-- The angle of a sensor; `pi` is `std::numbers::pi`. -/
def phase (pi : F) (index : ℕ) : F := 2.0 * pi * (index : F) / (sensorsPerBase : F)

/-- The radial, the azimuthal and the axial field at a sensor. -/
def sensorField (pi z : F) (index : ℕ) : Fin 3 → F :=
  ![-axialCurvature * radius * z + angularCoefficient * z * cos (phase pi index),
    azimuthalSensorBiasGauss - angularCoefficient * z * sin (phase pi index),
    axialOffset + axialCurvature * (z * z - 0.5 * radius * radius) +
      angularCoefficient * radius * cos (phase pi index)]

def sensorName (base : Char) (index : ℕ) : String := String.singleton base ++ toString (index + 1)

/-- The letters of the components. -/
def letter : Fin 3 → String := !["R", "F", "Z"]

/-- The name of a component of a sensor. -/
def channel (base : Char) (index : ℕ) (i : Fin 3) : String := sensorName base index ++ letter i

/-- The three entries of a sensor. -/
def emplaceSensor (pi : F) (base : Char) (frame : UnorderedMap String F) (index : ℕ) : UnorderedMap String F :=
  let b := sensorField pi (baseZ base) index
  ((frame.emplace (channel base index 0) (b 0)).emplace (channel base index 1) (b 1)).emplace
    (channel base index 2) (b 2)

/-- `TPC::create_test_frame`. -/
def createTestFrame (pi : F) : UnorderedMap String F :=
  ['E', 'W'].foldl (fun frame base => (List.range sensorsPerBase).foldl (emplaceSensor pi base) frame) ∅

/-! ## The entries -/

/-- The sensors, base by base. -/
def sensors : List (Char × ℕ) :=
  ['E', 'W'].flatMap fun base => (List.range sensorsPerBase).map fun index => (base, index)

/-- All entries in the order in which they are made. -/
def entries (pi : F) : List (Σ _ : String, F) :=
  sensors.flatMap fun s => (List.finRange 3).map fun i => ⟨channel s.1 s.2 i, sensorField pi (baseZ s.1) s.2 i⟩

theorem createTestFrame_eq (pi : F) :
    createTestFrame pi = (entries pi).foldl (fun m e => m.emplace e.1 e.2) ∅ := by
  rw [entries, sensors, List.foldl_flatMap, List.foldl_flatMap, createTestFrame]
  simp only [List.foldl_map]
  rfl

theorem keys_entries (pi : F) : (entries pi).keys =
    sensors.flatMap fun s => (List.finRange 3).map fun i => channel s.1 s.2 i := by
  rw [List.keys, entries, List.map_flatMap]
  simp only [List.map_map]
  rfl

theorem nodupKeys_entries (pi : F) : (entries pi).NodupKeys := by
  show (entries pi).keys.Nodup
  rw [keys_entries]
  decide

/-- No name is given twice: every sensor has its three entries. -/
theorem lookup_createTestFrame (pi : F) {s : Char × ℕ} (hs : s ∈ sensors) (i : Fin 3) :
    (createTestFrame pi).lookup (channel s.1 s.2 i) = some (sensorField pi (baseZ s.1) s.2 i) := by
  rw [createTestFrame_eq, UnorderedMap.lookup_foldl_emplace, AList.lookup_empty, Option.none_or]
  refine List.mem_dlookup (nodupKeys_entries pi) (List.mem_flatMap.mpr ⟨s, hs, ?_⟩)
  exact List.mem_map.mpr ⟨i, List.mem_finRange i, rfl⟩

/-! ## The fit -/

/-- Where a sensor is. -/
noncomputable def place (s : Char × ℕ) : Fin 3 → ℝ := ![radius, 2 * Real.pi * s.2 / (6 : ℕ), baseZ s.1]

/-- The measurement has the position of the sensor, and the values that the frame gives it. -/
structure Reads (frame : UnorderedMap String ℝ) (s : Char × ℕ) (y : Measurement ℝ) : Prop where
  position : y.pointComponents = ⟨place s, .cylindric⟩
  values : ∀ i, frame.lookup (channel s.1 s.2 i) = some (y.fieldComponents.components i)
  cylindric : y.fieldComponents.coordinateType = .cylindric

/-- The coefficients of the field of the test frame. -/
noncomputable def designed : Fin 10 → ℝ := ![axialOffset, 0, axialCurvature, 0, 0, 0, angularCoefficient, 0, 0, 0]

/-- `Br = -a r z`, `Bz = B0 + a (z² - r²/2)`, and the angular imperfection. -/
noncomputable def documented (p : Fin 3 → ℝ) : Fin 3 → ℝ :=
  ![-axialCurvature * p 0 * p 2 + angularCoefficient * p 2 * Real.cos (p 1),
    -angularCoefficient * p 2 * Real.sin (p 1),
    axialOffset + axialCurvature * (p 2 ^ 2 - p 0 ^ 2 / 2) + angularCoefficient * p 0 * Real.cos (p 1)]

theorem modeTotal_designed (p : Fin 3 → ℝ) : modeTotal designed p = documented p := by
  funext i
  fin_cases i
  · simp only [Fin.zero_eta, modeTotal_radial]
    simp [designed, documented]
    ring
  · simp only [Fin.mk_one, modeTotal_azimuthal]
    simp [designed, documented]
    ring
  · simp only [Fin.reduceFinMk, modeTotal_axial]
    simp [designed, documented]
    ring

theorem sensors_map_place : sensors.map place = twoRings radius halfLength 6 := by
  rw [sensors, List.map_flatMap, twoRings]
  simp only [List.map_map, List.flatMap_cons, List.flatMap_nil, List.append_nil]
  rfl

/-- The sensors read the designed field with the azimuthal error. -/
theorem sensorField_eq (s : Char × ℕ) :
    sensorField Real.pi (baseZ s.1) s.2 = biased designed (fun _ => azimuthalSensorBiasGauss) (place s) := by
  have h₂ : (2.0 : ℝ) = 2 := by norm_num
  rw [biased, modeTotal_designed]
  funext i
  fin_cases i
  · simp [sensorField, documented, place, phase, sensorsPerBase, h₂, cos_real]
  · simp [sensorField, documented, place, phase, sensorsPerBase, h₂, sin_real]
    ring
  · simp [sensorField, documented, place, phase, sensorsPerBase, h₂, cos_real]
    left
    ring

theorem measurements_eq {ms : List (Measurement ℝ)}
    (h : List.Forall₂ (Reads (createTestFrame Real.pi)) sensors ms) :
    ms = AnalyticsManager.ringMeasurements (twoRings radius halfLength 6)
      (biased designed fun _ => azimuthalSensorBiasGauss) := by
  rw [← sensors_map_place, AnalyticsManager.ringMeasurements, List.map_map, ← List.forall₂_eq_eq_eq,
    List.forall₂_map_right_iff, List.forall₂_iff_zip]
  obtain ⟨hlen, hread⟩ := List.forall₂_iff_zip.mp h
  refine ⟨hlen.symm, fun {y s} hys => ?_⟩
  have hsy : (s, y) ∈ sensors.zip ms := by
    rw [← List.zip_swap]
    exact List.mem_map.mpr ⟨(y, s), hys, rfl⟩
  obtain ⟨hpos, hvalues, htag⟩ := hread hsy
  have hfield : y.fieldComponents.components = biased designed (fun _ => azimuthalSensorBiasGauss) (place s) := by
    rw [← sensorField_eq]
    funext i
    have hi := hvalues i
    rw [lookup_createTestFrame Real.pi (List.of_mem_zip hsy).1] at hi
    exact (Option.some.inj hi).symm
  obtain ⟨point, ⟨components, tag⟩⟩ := y
  cases hpos
  cases htag
  cases hfield
  rfl

theorem radius_eq : (radius : ℝ) = 4 := by
  rw [radius, TpcGeometry.kRadius]
  norm_num

theorem halfLength_eq : (halfLength : ℝ) = 7 / 2 := by
  rw [halfLength, TpcGeometry.kLength]
  norm_num

open AnalyticsManager

/-- **The field of the test frame.** A fit of the twelve measurements that the test frame stands for, in any
order and with a small threshold, finds the documented field, at every point and without the error of the
azimuthal sensors. -/
theorem evaluateForPoint_testFrame {svd : JacobiSVD ℝ} (hsvd : SolvesTruncated svd) {m m' : AnalyticsManager ℝ}
    (hm : m.IsDefault) {t : ℝ} (hsmall : t ≤ 1 / 100) {ms₀ ms : List (Measurement ℝ)}
    (hread : List.Forall₂ (Reads (createTestFrame Real.pi)) sensors ms₀) (hms : ms.Perm ms₀)
    (he : Ends svd m (.calculateSvdCoefficients ms t) (.ok ()) m') (p : Fin 3 → ℝ) :
    m'.evaluateForPoint p = .ok ⟨documented p, .cylindric⟩ := by
  rw [measurements_eq hread, radius_eq, halfLength_eq] at hms
  obtain ⟨ht, hm', _, S, hx⟩ := exists_defaultTruncated hsvd hm he
  rw [hm'.evaluateForPoint hx, truncatedFit_eq (by decide) ht hsmall hms S, modeTotal_designed]

end TestFrame

end TPC.System
