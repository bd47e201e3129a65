import TPC.Analytics.Collection
import TPC.Analytics.Grid
import TPC.Analytics.Svd
import TPC.Lib.Prog
import TPC.Vtk.Exporter

/-!
# The analytics manager

`analytics/analytics_manager/analytics_manager.hpp`. The two calculations change the members and
are programs of atomic steps; the evaluations only read and are plain functions.

* `AnalyticsManager`, `create`, `createDefaultBasis`;
* `calculateSvdCoefficients`; `onFieldData`: the members of `FieldCollection`, on the stored one;
  `calculateField` with its two kernels;
* `evaluateForPoint`, `evaluateFieldSlice`;
* `getFieldData`, `exportToVtk`;
* `Command`, `Run`, `Reachable`: the states of a manager that `create` made.
-/

namespace TPC.Analytics

open Arith

variable {F : Type} [Arith F]

structure AnalyticsManager (F : Type) where
  basisCollection : BasisCollection F
  fieldData : Option (FieldCollection F)
  fieldDataValid : Bool
  storedCoefficients : List F

/-- The two mutexes, in the mode they are taken. -/
inductive Lock
  | coefficientsShared
  | coefficientsUnique
  | fieldDataShared
  | fieldDataUnique
  deriving DecidableEq, Repr

namespace AnalyticsManager

/-- Code that runs on a manager. -/
abbrev Code (F : Type) : Type → Type := Prog (AnalyticsManager F) Exit Lock

def create (basis : BasisCollection F) : Call (AnalyticsManager F) :=
  if basis.basis.isEmpty then .error (.unexpected "Basis functions collection is empty")
  else if basis.modes = 0 then
    .error (.unexpected "Basis modes count must be greater than zero")
  else .ok ⟨basis, none, false, []⟩

/-- `(void)basis.add_back(…)`: a full collection stays as it is. -/
def addBackIgnored (b : BasisCollection F) (f : HeaderFunction F) : BasisCollection F :=
  match b.addBack f with
  | .ok b' => b'
  | .error _ => b

def createDefaultBasis (first second third : HeaderFunction F) (modes : ℕ)
    (hm : modes ≤ sizeMax) : Call (BasisCollection F) :=
  match BasisCollection.create kDimension modes .cylindric hm with
  | .error (.unexpected e) => .error (.exception (.invalidArgument e))
  | .error e => .error e
  | .ok basis => .ok (addBackIgnored (addBackIgnored (addBackIgnored basis first) second) third)

def createGrid (nx ny nz : ℕ) : Fin 3 → ℕ := ![nx, ny, nz]

/-! ## Evaluation -/

/-- The comparison of `stored_coefficients_.size()` with the cast mode count. -/
def coefficientsMissing (m : AnalyticsManager F) : Prop :=
  (m.storedCoefficients.length : ℤ) ≠ toIndex m.basisCollection.modes

instance (m : AnalyticsManager F) : Decidable m.coefficientsMissing :=
  inferInstanceAs (Decidable (_ ≠ _))

/-- The loop over modes and components at one cylindrical point. -/
def modeSumAt (m : AnalyticsManager F) (coordinates : Fin 3 → F) : Call (Fin 3 → F) :=
  modeSum m.basisCollection.basis m.storedCoefficients m.basisCollection.modes coordinates

def evaluateForPoint (m : AnalyticsManager F) (coordinates : Fin 3 → F) :
    Call (FieldComponents F) :=
  if m.coefficientsMissing then .error (.unexpected "SVD coefficients are not calculated")
  else do
    let components ← m.modeSumAt coordinates
    return ⟨components, .cylindric⟩

/-- The Cartesian position of in-plane coordinates `u`, `v`. -/
def slicePosition (direction : SliceDirection) (coordinate u v : F) : F × F × F :=
  match direction with
  | .x => (coordinate, u, v)
  | .y => (u, coordinate, v)
  | .z => (u, v, coordinate)

/-- The angle of a pixel. -/
def slicePhi (x y : F) : F := if hypot x y ≤ epsilon then 0 else atan2 y x

/-- One pixel of the inner loop, on the field and mask buffers. -/
def slicePixel (m : AnalyticsManager F) (width : ℕ) (radius : F) (p : F × F × F) (row column : ℕ)
    (buffers : List F × List ℕ) : Call (List F × List ℕ) :=
  if radius * radius < p.1 * p.1 + p.2.1 * p.2.1 then return buffers
  else do
    let phi := slicePhi p.1 p.2.1
    let cylindrical ← m.modeSumAt (toArray (hypot p.1 p.2.1, phi, p.2.2))
    let pixel := wrap (wrap (row * width) + column)
    let offset := wrap (pixel * kDimension)
    let field ← writeAt buffers.1 offset (cylindrical 0 * cos phi - cylindrical 1 * sin phi)
    let field ← writeAt field (wrap (offset + 1)) (cylindrical 0 * sin phi + cylindrical 1 * cos phi)
    let field ← writeAt field (wrap (offset + 2)) (cylindrical 2)
    let valid ← writeAt buffers.2 pixel 1
    return (field, valid)

/-- The bounds of a slice: horizontal, then vertical. -/
def sliceBounds (direction : SliceDirection) (coordinate radius zLength : F) : (F × F) × (F × F) :=
  let halfLength := zLength * 0.5
  match direction with
  | .z => ((-radius, radius), (-radius, radius))
  | _ =>
    let transverseLimit := sqrt (Arith.max 0 (radius * radius - coordinate * coordinate))
    ((-transverseLimit, transverseLimit), (-halfLength, halfLength))

/-- The in-plane coordinates of a pixel. -/
def pixelU (bounds : F × F) (width column : ℕ) : F :=
  bounds.1 + (column : F) * ((bounds.2 - bounds.1) / ((width - 1 : ℕ) : F))

@[inherit_doc pixelU]
def pixelV (bounds : F × F) (height row : ℕ) : F :=
  bounds.2 - (row : F) * ((bounds.2 - bounds.1) / ((height - 1 : ℕ) : F))

/-- One row of the outer loop; the stop token is asked once per row. -/
def sliceRow (m : AnalyticsManager F) (direction : SliceDirection) (coordinate radius : F)
    (grid : Fin 2 → ℕ) (bounds : (F × F) × (F × F)) (stopRequested : ℕ → Bool)
    (buffers : List F × List ℕ) (row : ℕ) : Call (List F × List ℕ) :=
  if stopRequested row then .error (.unexpected "Slice evaluation cancelled")
  else (List.range (grid 0)).foldlM (fun buffers column =>
    m.slicePixel (grid 0) radius (slicePosition direction coordinate
      (pixelU bounds.1 (grid 0) column) (pixelV bounds.2 (grid 1) row)) row column buffers) buffers

def evaluateFieldSlice (m : AnalyticsManager F) (direction : SliceDirection) (coordinate : F)
    (grid : Fin 2 → ℕ) (radius zLength : F) (stopRequested : ℕ → Bool) : Call (FieldSlice F) :=
  if grid 0 < 2 ∨ grid 1 < 2 then
    .error (.unexpected "Slice grid dimensions must be at least 2")
  else if radius ≤ 0 ∨ zLength ≤ 0 then
    .error (.unexpected "Radius and length must be positive")
  else if (direction = .z ∧ zLength * 0.5 < abs coordinate)
      ∨ (direction ≠ .z ∧ radius < abs coordinate) then
    .error (.unexpected "Slice coordinate is outside the TPC geometry")
  else if m.coefficientsMissing then
    .error (.unexpected "SVD coefficients are not calculated")
  else if sizeMax / grid 1 < grid 0 then .error (.unexpected "Slice grid is too large")
  else
    let pixelCount := wrap (grid 0 * grid 1)
    if sizeMax / kDimension < pixelCount then .error (.unexpected "Slice grid is too large")
    else if vectorMax < wrap (pixelCount * kDimension) then .error (.exception .badAlloc)
    else do
      let bounds := sliceBounds direction coordinate radius zLength
      let buffers ← (List.range (grid 1)).foldlM
        (m.sliceRow direction coordinate radius grid bounds stopRequested)
        (resize (wrap (pixelCount * kDimension)) [], List.replicate pixelCount 0)
      return ⟨direction, coordinate, grid, bounds.1, bounds.2, buffers.1, buffers.2⟩

/-! ## Calculation -/

/-- The measurements after the in-place transformation of their positions. -/
def cylindricMeasurements (measurements : List (Measurement F)) : List (Measurement F) :=
  measurements.map fun m =>
    { m with pointComponents := m.pointComponents.transformCoordinates .cylindric }

def calculateSvdCoefficients (svd : JacobiSVD F) (measurements : List (Measurement F))
    (threshold : F) : Code F Unit := do
  let m ← Prog.get
  if measurements.isEmpty then Prog.throw (.unexpected "Measurements collection is empty!")
  else if m.basisCollection.basis.isEmpty then Prog.throw (.unexpected "Basis is incorrect!")
  else do
    let result ← Prog.ofExcept (SVDSolver.solveSvd svd (cylindricMeasurements measurements)
      m.basisCollection.basis m.basisCollection.modes threshold)
    Prog.withLock .coefficientsUnique
      (Prog.modify fun m => { m with storedCoefficients := result })

/-- The stored collection. The code asks for it only where there is one. -/
def storedField (m : AnalyticsManager F) : FieldCollection F :=
  m.fieldData.getD (.new kDimension .cylindric .cylindric)

/-- A write to it. -/
def updateField (f : FieldCollection F → FieldCollection F) (m : AnalyticsManager F) : AnalyticsManager F :=
  { m with fieldData := m.fieldData.map f }

/-- `field_data_->…`: a call of a member of the stored collection. -/
def onFieldData {A : Type} (call : Collection.Code F A) : Code F A := Prog.within storedField updateField call

def reserve (capacity : ℕ) : Code F Unit := onFieldData (Collection.reserve capacity)

def appendCoordinate (p : F × F × F) : Code F Unit := onFieldData (Collection.appendCoordinate p.1 p.2.1 p.2.2)

def calculateGridKernel (fuel : ℕ) (gridDimensions : Fin 3 → ℕ) (radius depth : F) :
    Code F Unit :=
  if gridDimensions 0 < 2 ∨ gridDimensions 1 < 2 ∨ gridDimensions 2 < 2 then
    Prog.throw (.unexpected "Grid dimensions are too small")
  else if radius ≤ 0 ∨ depth ≤ 0 then
    Prog.throw (.unexpected "Radius and depth must be positive")
  else
    match gridPoints fuel gridDimensions radius depth with
    | none => Prog.diverge
    | some points =>
      let pointCount := wrap points.length
      if sizeMax / kDimension < pointCount then Prog.throw (.unexpected "Grid is too large")
      else do
        reserve (wrap (pointCount * kDimension))
        Prog.each appendCoordinate (points.map polar)

/-- `field_buffer[i] = v`, unchecked. -/
def writeField (i : ℕ) (v : F) : Code F Unit :=
  Prog.modify (updateField fun fd => { fd with field := fd.field.set i v })

/-- One iteration of the loop of `calculate_field_kernel`. -/
def fieldAt (id : ℕ) : Code F Unit := do
  let m ← Prog.get
  let coordinates := (m.fieldData.map FieldCollection.coordinates).getD []
  let offset := id * kDimension
  let components ← Prog.ofExcept (do
    let r ← readAt coordinates offset
    let phi ← readAt coordinates (offset + 1)
    let z ← readAt coordinates (offset + 2)
    m.modeSumAt (toArray (r, phi, z)))
  writeField offset (components 0)
  writeField (offset + 1) (components 1)
  writeField (offset + 2) (components 2)

def calculateFieldKernel : Code F Unit := do
  let m ← Prog.get
  match m.fieldData with
  | none => Prog.throw (.exception .outOfRange)
  | some fd =>
    if fd.coordinates.length % kDimension ≠ 0 then
      Prog.throw (.unexpected "Coordinate buffer has an invalid size")
    else
      let pointCount := fd.coordinates.length / kDimension
      if fd.field.length ≠ wrap (pointCount * kDimension) then
        Prog.throw (.unexpected "Field buffer has an invalid size")
      else Prog.each fieldAt (List.range pointCount)

def validate (m : AnalyticsManager F) (radius zLength : F) : Call Unit :=
  if m.basisCollection.arity ≠ kDimension then
    .error (.unexpected "Basis does not contain enough components")
  else if radius ≤ 0 ∨ zLength ≤ 0 then
    .error (.unexpected "Radius and depth must be positive")
  else .ok ()

/-- `emplace` on a missing collection, `clear` on a present one. -/
def resetFieldData : Code F Unit := do
  let m ← Prog.get
  match m.fieldData with
  | none => Prog.modify fun m => { m with fieldData := some (.new kDimension .cylindric .cylindric) }
  | some _ => onFieldData Collection.clear

/-- The part of `calculate_field` that rewrites the buffers, with the field lock held. -/
def rewriteFieldData (fuel : ℕ) (gridDimensions : Fin 3 → ℕ) (radius zLength : F) :
    Code F Unit := do
  Prog.modify fun m => { m with fieldDataValid := false }
  resetFieldData
  calculateGridKernel fuel gridDimensions radius zLength
  onFieldData Collection.resizeFieldToCoordinates
  calculateFieldKernel
  Prog.modify fun m => { m with fieldDataValid := true }

def calculateField (fuel : ℕ) (gridDimensions : Fin 3 → ℕ) (radius zLength : F) :
    Code F Unit := do
  let m ← Prog.get
  Prog.ofExcept (m.validate radius zLength)
  Prog.withLock .coefficientsShared do
    let m ← Prog.get
    if m.coefficientsMissing then
      Prog.throw (.unexpected "SVD coefficients are not calculated")
    else Prog.withLock .fieldDataUnique (rewriteFieldData fuel gridDimensions radius zLength)

/-! ## Readers of the stored field -/

/-- The collection that a `FieldReadView` shows. -/
def getFieldData (m : AnalyticsManager F) : Call (FieldCollection F) :=
  match m.fieldDataValid, m.fieldData with
  | true, some fd => .ok fd
  | _, _ => .error (.unexpected "Field data is not calculated")

/-- What an exporter does with a field buffer, a coordinate buffer and a path. -/
abbrev Exporter (F A : Type) : Type := List F → List F → String → Call A

section Export

variable {A : Type} (exporter : Exporter F A)

/-- `export_to_vtk()`. -/
def exportToVtk (m : AnalyticsManager F) : Call A :=
  match m.fieldDataValid, m.fieldData with
  | true, some fd =>
    if fd.field.isEmpty ∨ fd.coordinates.isEmpty then
      .error (.unexpected "Field data is empty, cannot export to VTK")
    else exporter fd.field fd.coordinates "output.vtk"
  | _, _ => .error (.unexpected "Field data is not calculated, cannot export to VTK")

end Export

/-! ## Runs -/

/-- A calculation, with its arguments. -/
inductive Command (F : Type)
  | calculateSvdCoefficients (measurements : List (Measurement F)) (threshold : F)
  | calculateField (fuel : ℕ) (gridDimensions : Fin 3 → ℕ) (radius zLength : F)

/-- The code of a calculation. -/
def Command.code (svd : JacobiSVD F) : Command F → Code F Unit
  | .calculateSvdCoefficients measurements threshold =>
    AnalyticsManager.calculateSvdCoefficients svd measurements threshold
  | .calculateField fuel gridDimensions radius zLength =>
    AnalyticsManager.calculateField fuel gridDimensions radius zLength

/-- A call that has ended, by its value, by an error or by an exception. -/
def Ends (svd : JacobiSVD F) (m : AnalyticsManager F) (c : Command F) (r : Call Unit)
    (m' : AnalyticsManager F) : Prop :=
  Prog.Reaches (c.code svd) m (Prog.ended r) m'

/-- A sequence of calls that have ended, each with its outcome. -/
inductive Run (svd : JacobiSVD F) (m₀ : AnalyticsManager F) :
    List (Command F × Call Unit) → AnalyticsManager F → Prop
  | nil : Run svd m₀ [] m₀
  | call {calls : List (Command F × Call Unit)} {m m' : AnalyticsManager F}
    (hm : Run svd m₀ calls m) (c : Command F) (r : Call Unit) (h : Ends svd m c r m') :
    Run svd m₀ (calls ++ [(c, r)]) m'

/-- The states of a manager that `create` made, between calls. -/
def Reachable (svd : JacobiSVD F) (m : AnalyticsManager F) : Prop :=
  ∃ basis m₀ calls, create basis = .ok m₀ ∧ Run svd m₀ calls m

end AnalyticsManager

end TPC.Analytics
