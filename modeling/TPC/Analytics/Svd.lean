import TPC.Analytics.Basis

/-!
# The least-squares set-up

`analytics/svd/svd_solver.hpp`. The decomposition itself is Eigen's `JacobiSVD`, a parameter of
the model; the design matrix and the right-hand side it is given are the code's own.

* `Design`: the matrix, row by row, and the right-hand side;
* `JacobiSVD`: `setThreshold` and `solve`, of which the model takes only the size of the solution;
* `MeasurementConcept`: measurements of any dimension;
* `SVDSolver.design`, `SVDSolver.solveSvd`.
-/

namespace TPC.Analytics

open Arith

variable {F : Type} [Arith F]

/-- The matrix, row by row, with `columns` entries each, and the right-hand side. -/
structure Design (F : Type) where
  columns : ℕ
  matrix : List (List F)
  values : List F

/-- Eigen's decomposition: the solution for a threshold has one entry per matrix column. -/
structure JacobiSVD (F : Type) where
  solve : Design F → F → List F
  length_solve : ∀ d t, (solve d t).length = d.columns

/-- `concepts::MeasurementConcept`: the two spans of a measurement. -/
class MeasurementConcept (M : Type) (F : outParam Type) where
  getPointComponents : M → List F
  getFieldComponents : M → List F

instance : MeasurementConcept (Measurement F) F where
  getPointComponents m := List.ofFn m.pointComponents.components
  getFieldComponents m := List.ofFn m.fieldComponents.components

namespace SVDSolver

open MeasurementConcept

variable {M : Type} [MeasurementConcept M F]

/-- `matrix(row, mode) = basis_functions[component].invoke_from_span(mode, coordinates)`. -/
def writeEntry (f : HeaderFunction F) (coordinates : List F) (row : ℤ) (matrix : List (List F))
    (mode : ℕ) : Call (List (List F)) := do
  let v ← f.invokeFromSpan mode coordinates
  let entries ← readAt matrix row.toNat
  let entries ← writeAt entries (toIndex mode) v
  writeAt matrix row entries

/-- The matrix row and the value of one component of one measurement. -/
def writeRow (basis : List (HeaderFunction F)) (modes fieldDimension : ℕ)
    (coordinates values : List F) (measurementIndex : ℕ) (d : Design F) (component : ℕ) :
    Call (Design F) := do
  let row := toIndex (wrap (wrap (fieldDimension * measurementIndex) + component))
  let value ← readAt values component
  let valuesVector ← writeAt d.values row value
  let f ← readAt basis component
  let matrix ← (List.range modes).foldlM (writeEntry f coordinates row) d.matrix
  return { d with matrix := matrix, values := valuesVector }

/-- All components of one measurement. -/
def writeMeasurement (basis : List (HeaderFunction F)) (modes fieldDimension : ℕ) (d : Design F)
    (m : M × ℕ) : Call (Design F) :=
  let coordinates := getPointComponents m.1
  let values := getFieldComponents m.1
  if coordinates.length ≠ fieldDimension ∨ values.length ≠ fieldDimension then
    .error (.unexpected "Measurement dimensions are inconsistent")
  else (List.range fieldDimension).foldlM
    (writeRow basis modes fieldDimension coordinates values m.2) d

/-- A fresh matrix and vector; Eigen leaves the entries unset, and every one is written. -/
def emptyDesign (rows columns : ℤ) : Design F :=
  ⟨columns.toNat, List.replicate rows.toNat (List.replicate columns.toNat 0),
    List.replicate rows.toNat 0⟩

/-- What `solve_svd` hands to the decomposition. -/
def design (measurements : List M) (basis : List (HeaderFunction F)) (modes : ℕ)
    (threshold : F) : Call (Design F) :=
  match measurements with
  | [] => .error (.unexpected "Measurement collection is empty")
  | front :: _ =>
    if basis.isEmpty then .error (.unexpected "Basis functions collection is empty")
    else if modes = 0 then .error (.unexpected "Modes count must be greater than zero")
    else if threshold < 0 then .error (.unexpected "SVD threshold cannot be negative")
    else
      let fieldDimension := (getPointComponents front).length
      if fieldDimension = 0 then
        .error (.unexpected "Measurement dimension must be greater than zero")
      else if basis.length ≠ fieldDimension then
        .error (.unexpected "Number of basis functions must equal field dimension")
      else if indexMax / fieldDimension < measurements.length then
        .error (.unexpected "Measurement matrix is too large")
      else if indexMax < modes then .error (.unexpected "Modes count is too large")
      else measurements.zipIdx.foldlM (writeMeasurement basis modes fieldDimension)
        (emptyDesign (toIndex (wrap (measurements.length * fieldDimension))) (toIndex modes))

def solveSvd (svd : JacobiSVD F) (measurements : List M)
    (basis : List (HeaderFunction F)) (modes : ℕ) (threshold : F) : Call (List F) := do
  let d ← design measurements basis modes threshold
  return svd.solve d threshold

end SVDSolver

end TPC.Analytics
