import TPC.Lib.Reader
import TPC.Vtk.Exporter

/-!
# The file format

What the exporter writes is a sequence of words and numbers. It is read back by a reader of its own, which
takes each section by the counts that its header announces.

* `Token`, **`VtkFile.tokens`**: the output statements of the exporter;
* `UnstructuredGrid`, **`readGrid`**: a reader of unstructured grids;
* `VtkFile.Consistent`: the announced counts are those of the sections;
* **`VtkFile.Consistent.parse_tokens`**: a consistent file is read back as it was written.
-/

namespace TPC.Vtk

/-- A token of the file. -/
inductive Token (F : Type)
  | word (s : String)
  | nat (n : ℕ)
  | real (x : F)

variable {F : Type}

namespace Token

def word? : Token F → Option String
  | word s => some s
  | _ => none

def nat? : Token F → Option ℕ
  | nat n => some n
  | _ => none

def real? : Token F → Option F
  | real x => some x
  | _ => none

/-- Several words. -/
def words (l : List String) : List (Token F) := l.map word

end Token

open Token Reader

/-! ## The writer -/

/-- The first four lines. -/
def header : List String :=
  ["#", "vtk", "DataFile", "Version", "3.0", "TPC", "Analytics", "Field", "Data", "ASCII", "DATASET",
    "UNSTRUCTURED_GRID"]

/-- `point.x << ' ' << point.y << ' ' << point.z`. -/
def pointTokens (p : CartesianPoint F) : List (Token F) := [real p.x, real p.y, real p.z]

/-- `"6 "` and the indices. -/
def cellTokens (cell : List ℕ) : List (Token F) := nat 6 :: cell.map nat

/-- `bx << ' ' << by << ' ' << bz`. -/
def vectorTokens (v : F × F × F) : List (Token F) := [real v.1, real v.2.1, real v.2.2]

def VtkFile.pointsSection (file : VtkFile F) : List (Token F) :=
  words ["POINTS"] ++ ([nat file.pointCount] ++ (words ["double"] ++ file.points.flatMap pointTokens))

def VtkFile.cellsSection (file : VtkFile F) : List (Token F) :=
  words ["CELLS"] ++ ([nat file.cellCount] ++ ([nat file.cellIntegers] ++ file.cells.flatMap cellTokens))

def VtkFile.typesSection (file : VtkFile F) : List (Token F) :=
  words ["CELL_TYPES"] ++ ([nat file.cellCount] ++ file.cellTypes.map nat)

def VtkFile.dataSection (file : VtkFile F) : List (Token F) :=
  words ["POINT_DATA"] ++ ([nat file.vectorCount] ++
    (words ["VECTORS", "MagneticField", "double"] ++ file.vectors.flatMap vectorTokens))

/-- What is written, one output statement after another. -/
def VtkFile.tokens (file : VtkFile F) : List (Token F) :=
  words header ++ (file.pointsSection ++ (file.cellsSection ++ (file.typesSection ++ file.dataSection)))

/-! ## The reader -/

/-- An unstructured grid with one vector for each point. -/
structure UnstructuredGrid (F : Type) where
  points : List (CartesianPoint F)
  cells : List (List ℕ)
  cellTypes : List ℕ
  vectors : List (F × F × F)

/-- The next tokens have to be these words. -/
def expectWords : List String → Reader (Token F) Unit
  | [] => pure ()
  | s :: l => do
    let s' ← token word?
    if s' = s then expectWords l else failure

def readNat : Reader (Token F) ℕ := token nat?

def readReal : Reader (Token F) F := token real?

def readPoint : Reader (Token F) (CartesianPoint F) := do
  let x ← readReal
  let y ← readReal
  let z ← readReal
  pure ⟨x, y, z⟩

def readVector : Reader (Token F) (F × F × F) := do
  let x ← readReal
  let y ← readReal
  let z ← readReal
  pure (x, y, z)

/-- A cell is preceded by the number of its points. -/
def readCell : Reader (Token F) (List ℕ) := do
  let n ← readNat
  times readNat n

def readPoints : Reader (Token F) (List (CartesianPoint F)) := do
  expectWords ["POINTS"]
  let n ← readNat
  expectWords ["double"]
  times readPoint n

/-- The integers of the cells: those of the points, and one more for each cell. -/
def cellSize (cells : List (List ℕ)) : ℕ := (cells.map fun cell => cell.length + 1).sum

/-- The announced number of integers is that of the cells. -/
def readCells : Reader (Token F) (List (List ℕ)) := do
  expectWords ["CELLS"]
  let n ← readNat
  let integers ← readNat
  let cells ← times readCell n
  if cellSize cells = integers then pure cells else failure

/-- There is a type for each cell. -/
def readCellTypes (cells : ℕ) : Reader (Token F) (List ℕ) := do
  expectWords ["CELL_TYPES"]
  let n ← readNat
  if n = cells then times readNat n else failure

/-- There is a vector for each point. -/
def readVectors (points : ℕ) : Reader (Token F) (List (F × F × F)) := do
  expectWords ["POINT_DATA"]
  let n ← readNat
  if n = points then do
    expectWords ["VECTORS", "MagneticField", "double"]
    times readVector n
  else failure

def readGrid : Reader (Token F) (UnstructuredGrid F) := do
  expectWords header
  let points ← readPoints
  let cells ← readCells
  let cellTypes ← readCellTypes cells.length
  let vectors ← readVectors points.length
  pure ⟨points, cells, cellTypes, vectors⟩

/-! ## The round trip -/

/-- The announced counts are those of the sections, and every cell has six points. -/
structure VtkFile.Consistent (file : VtkFile F) : Prop where
  points : file.points.length = file.pointCount
  cells : file.cells.length = file.cellCount
  integers : file.cellIntegers = file.cellCount * 7
  six : ∀ cell ∈ file.cells, cell.length = 6
  types : file.cellTypes.length = file.cellCount
  vectors : file.vectors.length = file.vectorCount
  attached : file.vectorCount = file.pointCount

theorem inverts_word (s : String) : Inverts (token (Token.word? (F := F))) [word s] s := inverts_token rfl

theorem inverts_readNat (n : ℕ) : Inverts (readNat (F := F)) [nat n] n := inverts_token rfl

theorem inverts_readReal (x : F) : Inverts readReal [real x] x := inverts_token rfl

theorem inverts_expectWords : ∀ l, Inverts (expectWords (F := F) l) (words l) ()
  | [] => inverts_pure ()
  | s :: l => by
    show Inverts (expectWords (s :: l)) ([word s] ++ words l) ()
    refine (inverts_word s).bind ?_
    rw [if_pos rfl]
    exact inverts_expectWords l

theorem inverts_readPoint (p : CartesianPoint F) : Inverts readPoint (pointTokens p) p :=
  (inverts_readReal p.x).bind ((inverts_readReal p.y).bind
    ((inverts_readReal p.z).map fun z => (⟨p.x, p.y, z⟩ : CartesianPoint F)))

theorem inverts_readVector (v : F × F × F) : Inverts readVector (vectorTokens v) v :=
  (inverts_readReal v.1).bind ((inverts_readReal v.2.1).bind
    ((inverts_readReal v.2.2).map fun z => (v.1, v.2.1, z)))

theorem inverts_nats (l : List ℕ) : Inverts (times (readNat (F := F)) l.length) (l.map nat) l := by
  rw [List.map_eq_flatMap]
  exact inverts_times fun n _ => inverts_readNat n

theorem inverts_readCell {cell : List ℕ} (h : cell.length = 6) :
    Inverts (readCell (F := F)) (cellTokens cell) cell := by
  show Inverts readCell ([nat 6] ++ cell.map nat) cell
  refine (inverts_readNat 6).bind ?_
  rw [← h]
  exact inverts_nats cell

namespace VtkFile.Consistent

variable {file : VtkFile F} (h : file.Consistent)

include h

theorem cellSize_eq : cellSize file.cells = file.cellIntegers := by
  have hmap : file.cells.map (fun cell => cell.length + 1) = List.replicate file.cells.length 7 := by
    rw [List.eq_replicate_iff, List.length_map]
    refine ⟨rfl, fun n hn => ?_⟩
    obtain ⟨cell, hcell, rfl⟩ := List.mem_map.mp hn
    rw [h.six cell hcell]
  rw [cellSize, hmap, List.sum_replicate, h.cells, h.integers, smul_eq_mul]

theorem inverts_points : Inverts readPoints file.pointsSection file.points := by
  refine (inverts_expectWords _).bind ((inverts_readNat _).bind ((inverts_expectWords _).bind ?_))
  rw [← h.points]
  exact inverts_times fun p _ => inverts_readPoint p

theorem inverts_cells : Inverts readCells file.cellsSection file.cells := by
  have hcells : Inverts (times (readCell (F := F)) file.cellCount) (file.cells.flatMap cellTokens)
      file.cells := by
    rw [← h.cells]
    exact inverts_times fun cell hcell => inverts_readCell (h.six cell hcell)
  refine (inverts_expectWords _).bind ((inverts_readNat _).bind ((inverts_readNat _).bind ?_))
  rw [← List.append_nil (file.cells.flatMap cellTokens)]
  refine hcells.bind ?_
  rw [if_pos h.cellSize_eq]
  exact inverts_pure _

theorem inverts_cellTypes : Inverts (readCellTypes file.cells.length) file.typesSection file.cellTypes := by
  refine (inverts_expectWords _).bind ((inverts_readNat _).bind ?_)
  rw [if_pos h.cells.symm, ← h.types]
  exact inverts_nats _

theorem inverts_vectors : Inverts (readVectors file.points.length) file.dataSection file.vectors := by
  refine (inverts_expectWords _).bind ((inverts_readNat _).bind ?_)
  rw [if_pos (h.attached.trans h.points.symm)]
  refine (inverts_expectWords _).bind ?_
  rw [← h.vectors]
  exact inverts_times fun v _ => inverts_readVector v

/-- **A consistent file is read back as it was written.** -/
theorem parse_tokens :
    parse readGrid file.tokens = some ⟨file.points, file.cells, file.cellTypes, file.vectors⟩ :=
  Inverts.parse_eq <| (inverts_expectWords header).bind <| h.inverts_points.bind <|
    h.inverts_cells.bind <| h.inverts_cellTypes.bind <| h.inverts_vectors.map
      fun vectors => (⟨file.points, file.cells, file.cellTypes, vectors⟩ : UnstructuredGrid F)

end VtkFile.Consistent

end TPC.Vtk
