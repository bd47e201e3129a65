import TPC.Analytics.Models
import TPC.Lib.Fold

/-!
# The VTK exporter

`analytics/output/vtk_field_exporter.hpp`: the flat coordinates are read back as Cartesian points,
layers and rows are recovered from them, adjacent rows are triangulated and the triangles extruded
into wedges.

* `approximatelyEqual`; `toPoint`;
* `layerEnd`, `checkLayers`: the complete `Z` layers;
* `rowEnd`, `detectRows`: the rows of a layer;
* `addTriangle`, `stripWalk`, `triangulate`: the strips between adjacent rows;
* `VtkFile`, `buildFile`: everything that is checked and written;
* `export3dFieldToVtk`: the same, with the outcome of the file operations.
-/

namespace TPC.Vtk

open Arith Analytics

variable {F : Type} [Arith F]

structure CartesianPoint (F : Type) where
  x : F
  y : F
  z : F

/-- One stored triple `(r, phi, z)` as a Cartesian point. -/
def toPoint (p : F × F × F) : CartesianPoint F := ⟨p.1 * cos p.2.1, p.1 * sin p.2.1, p.2.2⟩

def approximatelyEqual (lhs rhs : F) : Prop :=
  abs (lhs - rhs) ≤ 64.0 * epsilon * Arith.max (Arith.max 1 (abs lhs)) (abs rhs)

instance (lhs rhs : F) : Decidable (approximatelyEqual lhs rhs) :=
  inferInstanceAs (Decidable (_ ≤ _))

/-! ## Layers -/

/-- `while (points_per_layer < num_points && …) ++points_per_layer`, from `i`. -/
def layerEnd (points : List (CartesianPoint F)) (frontZ : F) (i : ℕ) : Call ℕ :=
  if i < points.length then do
    let p ← readAt points i
    if approximatelyEqual p.z frontZ then layerEnd points frontZ (i + 1) else return i
  else return i
termination_by points.length - i

/-- One comparison of a point with the point of the first layer. -/
def checkPoint (points : List (CartesianPoint F)) (layerOffset : ℕ) (layerZ : F) (point : ℕ) :
    Call Unit := do
  let reference ← readAt points point
  let current ← readAt points (wrap (layerOffset + point))
  if ¬ approximatelyEqual current.z layerZ ∨ ¬ approximatelyEqual current.x reference.x
      ∨ ¬ approximatelyEqual current.y reference.y then
    .error (.unexpected "XY topology differs between Z layers")
  else return ()

/-- All points of one layer. -/
def checkLayer (points : List (CartesianPoint F)) (pointsPerLayer layer : ℕ) : Call Unit := do
  let layerOffset := wrap (layer * pointsPerLayer)
  let front ← readAt points layerOffset
  (List.range pointsPerLayer).foldlM (fun _ => checkPoint points layerOffset front.z) ()

/-- All layers. -/
def checkLayers (points : List (CartesianPoint F)) (pointsPerLayer layerCount : ℕ) : Call Unit :=
  (List.range layerCount).foldlM (fun _ => checkLayer points pointsPerLayer) ()

/-! ## Rows -/

/-- A half-open range of points with one `y`. -/
structure Row where
  begin : ℕ
  stop : ℕ
  deriving DecidableEq, Repr

/-- `while (end < points_per_layer && …) ++end`, from `i`. -/
def rowEnd (points : List (CartesianPoint F)) (pointsPerLayer : ℕ) (beginY : F) (i : ℕ) : Call ℕ :=
  if i < pointsPerLayer then do
    let p ← readAt points i
    if approximatelyEqual p.y beginY then rowEnd points pointsPerLayer beginY (i + 1) else return i
  else return i
termination_by pointsPerLayer - i

/-- `for (begin = 0; begin < points_per_layer;)`, from `begin`. Every row takes a point, so
`points_per_layer` bounds the number of iterations. -/
def detectRows (points : List (CartesianPoint F)) (pointsPerLayer : ℕ) : ℕ → ℕ → Call (List Row)
  | 0, begin =>
    if begin < pointsPerLayer then .error (.exception .nonTermination) else return []
  | fuel + 1, begin =>
    if begin < pointsPerLayer then do
      let front ← readAt points begin
      let stop ← rowEnd points pointsPerLayer front.y (begin + 1)
      let rows ← detectRows points pointsPerLayer fuel stop
      return ⟨begin, stop⟩ :: rows
    else return []

/-! ## Triangles -/

abbrev Triangle : Type := ℕ × ℕ × ℕ

def signedArea (a b c : CartesianPoint F) : F :=
  (b.x - a.x) * (c.y - a.y) - (b.y - a.y) * (c.x - a.x)

/-- `add_triangle`: flat triangles are dropped, clockwise ones turned. -/
def addTriangle (points : List (CartesianPoint F)) (triangles : List Triangle) (a b c : ℕ) :
    Call (List Triangle) := do
  let pa ← readAt points a
  let pb ← readAt points b
  let pc ← readAt points c
  let area := signedArea pa pb pc
  if approximatelyEqual area 0 then return triangles
  else if area < 0 then return triangles ++ [(a, c, b)]
  else return triangles ++ [(a, b, c)]

/-- The walk over one strip; `fuel` bounds its steps. -/
def stripWalk (points : List (CartesianPoint F)) (lower upper : Row) :
    ℕ → ℕ → ℕ → List Triangle → Call (List Triangle)
  | 0, lowerPoint, upperPoint, triangles =>
    if lowerPoint + 1 < lower.stop ∨ upperPoint + 1 < upper.stop then
      .error (.exception .nonTermination)
    else return triangles
  | fuel + 1, lowerPoint, upperPoint, triangles =>
    if lowerPoint + 1 < lower.stop ∨ upperPoint + 1 < upper.stop then
      if upperPoint + 1 = upper.stop then do
        let triangles ← addTriangle points triangles lowerPoint (lowerPoint + 1) upperPoint
        stripWalk points lower upper fuel (lowerPoint + 1) upperPoint triangles
      else if lowerPoint + 1 = lower.stop then do
        let triangles ← addTriangle points triangles lowerPoint upperPoint (upperPoint + 1)
        stripWalk points lower upper fuel lowerPoint (upperPoint + 1) triangles
      else do
        let pl ← readAt points (lowerPoint + 1)
        let pu ← readAt points (upperPoint + 1)
        if pl.x < pu.x then do
          let triangles ← addTriangle points triangles lowerPoint (lowerPoint + 1) upperPoint
          stripWalk points lower upper fuel (lowerPoint + 1) upperPoint triangles
        else do
          let triangles ← addTriangle points triangles lowerPoint upperPoint (upperPoint + 1)
          stripWalk points lower upper fuel lowerPoint (upperPoint + 1) triangles
    else return triangles

/-- The strip between rows `row` and `row + 1`. -/
def strip (points : List (CartesianPoint F)) (rows : List Row) (triangles : List Triangle)
    (row : ℕ) : Call (List Triangle) := do
  let lower ← readAt rows row
  let upper ← readAt rows (row + 1)
  stripWalk points lower upper (lower.stop - lower.begin + (upper.stop - upper.begin))
    lower.begin upper.begin triangles

/-- All strips. -/
def triangulate (points : List (CartesianPoint F)) (rows : List Row) : Call (List Triangle) :=
  (List.range (rows.length - 1)).foldlM (strip points rows) []

/-! ## The file -/

/-- What is written, section by section, with the counts the headers announce. -/
structure VtkFile (F : Type) where
  pointCount : ℕ
  points : List (CartesianPoint F)
  cellCount : ℕ
  cellIntegers : ℕ
  cells : List (List ℕ)
  cellTypes : List ℕ
  vectorCount : ℕ
  vectors : List (F × F × F)

/-- The wedges between layer `layer` and the next. -/
def layerCells (pointsPerLayer : ℕ) (triangles : List Triangle) (layer : ℕ) : List (List ℕ) :=
  let lowerOffset := wrap (layer * pointsPerLayer)
  let upperOffset := wrap (lowerOffset + pointsPerLayer)
  triangles.map fun t =>
    [wrap (lowerOffset + t.1), wrap (lowerOffset + t.2.1), wrap (lowerOffset + t.2.2),
      wrap (upperOffset + t.1), wrap (upperOffset + t.2.1), wrap (upperOffset + t.2.2)]

/-- The vector written for a stored coordinate triple and a stored field triple. -/
def toVector (c b : F × F × F) : F × F × F :=
  let phi := c.2.1
  let br := b.1
  let bphi := b.2.1
  let bz := b.2.2
  (br * cos phi - bphi * sin phi, br * sin phi + bphi * cos phi, bz)

/-- All checks on the data, and the content of the file. -/
def buildFile (fieldData coordinatesData : List F) (filePath : String) : Call (VtkFile F) :=
  if coordinatesData.isEmpty then .error (.unexpected "Coordinates data is empty")
  else if coordinatesData.length % kDimension ≠ 0 then
    .error (.unexpected "Coordinates data size must be divisible by 3")
  else
    let numPoints := coordinatesData.length / kDimension
    if fieldData.length ≠ wrap (numPoints * kDimension) then
      .error (.unexpected ("Field data must contain " ++ toString (wrap (numPoints * kDimension))
        ++ " values, but contains " ++ toString fieldData.length))
    else if filePath.isEmpty then .error (.unexpected "File path is empty")
    else do
      let points := (Fold.unflat coordinatesData).map toPoint
      let front ← readAt points 0
      let pointsPerLayer ← layerEnd points front.z 1
      if pointsPerLayer = numPoints ∨ numPoints % pointsPerLayer ≠ 0 then
        .error (.unexpected "Coordinates do not form complete Z layers")
      else
        let layerCount := numPoints / pointsPerLayer
        if layerCount < 2 then
          .error (.unexpected "At least two Z layers are required for volumetric export")
        else do
          checkLayers points pointsPerLayer layerCount
          let rows ← detectRows points pointsPerLayer pointsPerLayer 0
          if rows.length < 2 then
            .error (.unexpected "At least two XY rows are required for volumetric export")
          else do
            let triangles ← triangulate points rows
            if triangles.isEmpty then
              .error (.unexpected "Failed to build XY triangulation")
            else if sizeMax / (layerCount - 1) < triangles.length then
              .error (.unexpected "VTK cell collection is too large")
            else
              let cellCount := wrap (triangles.length * (layerCount - 1))
              if sizeMax / 7 < cellCount then
                .error (.unexpected "VTK cell collection is too large")
              else return {
                pointCount := numPoints
                points := points
                cellCount := cellCount
                cellIntegers := wrap (cellCount * 7)
                cells := (List.range (layerCount - 1)).flatMap
                  (layerCells pointsPerLayer triangles)
                cellTypes := List.replicate cellCount 13
                vectorCount := numPoints
                vectors := List.zipWith toVector (Fold.unflat coordinatesData)
                  (Fold.unflat fieldData) }

/-- The outcomes of the file operations. -/
structure FileSystem where
  parentPath : String → Option String
  /-- The message of the error code, if there is one. -/
  createDirectories : String → Option String
  opens : String → Bool
  /-- The stream is still good after the flush. -/
  writes : String → Bool

def export3dFieldToVtk (fs : FileSystem) (fieldData coordinatesData : List F) (filePath : String) :
    Call (VtkFile F) := do
  let file ← buildFile fieldData coordinatesData filePath
  match (fs.parentPath filePath).bind fs.createDirectories with
  | some message => .error (.unexpected ("Failed to create directory: " ++ message))
  | none =>
    if ¬ fs.opens filePath then
      .error (.unexpected ("Failed to open file for writing: " ++ filePath))
    else if ¬ fs.writes filePath then .error (.unexpected "I/O error while writing VTK file")
    else return file

end TPC.Vtk
