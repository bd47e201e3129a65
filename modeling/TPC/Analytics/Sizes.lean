import TPC.Analytics.Containment
import TPC.Core.Checked

/-!
# Exact sizes

The two functions that compute buffer sizes and indices from what they are given, with every operation on
sizes checked, and the runs of the checked functions.

* `checkedModeSum`, `checkedSlicePixel`, `checkedSliceRow`, `checkedFieldSlice`: `evaluate_field_slice`;
* `checkedWriteEntry`, `checkedWriteRow`, `checkedMeasurement`, `checkedSetUp`: the set-up of `solve_svd`;
* `PixelAgree`, `lockstep_slicePixel`, `lockstep_sliceRow`, **`checkedFieldSlice_eq`**;
* `MatrixAgree`, `lockstep_writeEntry`, `lockstep_writeRow`, **`checkedSetUp_eq`**;
* `pixelIndex`, `rowIndex`: the addresses, as the machine computes them;
* `ExactSizes`, **`exactSizes`**: neither function is ever stopped, and the addresses differ.
-/

namespace TPC.Analytics

open Arith Checked

variable {F : Type} [Arith F]

/-! ## The slice -/

section ModeSum

variable (basis : List (HeaderFunction F)) (coefficients : List F)

def checkedTerm (c : Fin 3 → F) (mode : ℕ) (coefficient : F) (components : Fin 3 → F) (i : Fin 3) :
    Checked (Fin 3 → F) := do
  let f ← Checked.read basis i
  let v ← Checked.lift (f.call mode (c 0) (c 1) (c 2))
  return Function.update components i (components i + coefficient * v)

def checkedMode (c : Fin 3 → F) (components : Fin 3 → F) (mode : ℕ) : Checked (Fin 3 → F) := do
  let coefficient ← Checked.read coefficients (← Checked.cast mode)
  [0, 1, 2].foldlM (checkedTerm basis c mode coefficient) components

def checkedModeSum (modes : ℕ) (c : Fin 3 → F) : Checked (Fin 3 → F) :=
  (List.range modes).foldlM (checkedMode basis coefficients c) fun _ => 0

end ModeSum

namespace AnalyticsManager

/-- One pixel. -/
def checkedSlicePixel (m : AnalyticsManager F) (width : ℕ) (radius : F) (p : F × F × F)
    (row column : ℕ) (buffers : Buffer F × Buffer ℕ) : Checked (Buffer F × Buffer ℕ) :=
  if radius * radius < p.1 * p.1 + p.2.1 * p.2.1 then return buffers
  else do
    let phi := slicePhi p.1 p.2.1
    let cylindrical ← checkedModeSum m.basisCollection.basis m.storedCoefficients
      m.basisCollection.modes (toArray (hypot p.1 p.2.1, phi, p.2.2))
    let pixel ← Checked.add (← Checked.mul row width) column
    let offset ← Checked.mul pixel kDimension
    let field ← Checked.write buffers.1 offset (cylindrical 0 * cos phi - cylindrical 1 * sin phi)
    let field ← Checked.write field (← Checked.add offset 1) (cylindrical 0 * sin phi + cylindrical 1 * cos phi)
    let field ← Checked.write field (← Checked.add offset 2) (cylindrical 2)
    let valid ← Checked.write buffers.2 pixel 1
    return (field, valid)

def checkedSliceRow (m : AnalyticsManager F) (direction : SliceDirection) (coordinate radius : F)
    (grid : Fin 2 → ℕ) (bounds : (F × F) × (F × F)) (stopRequested : ℕ → Bool)
    (buffers : Buffer F × Buffer ℕ) (row : ℕ) : Checked (Buffer F × Buffer ℕ) :=
  if stopRequested row then refuse "Slice evaluation cancelled"
  else (List.range (grid 0)).foldlM (fun buffers column =>
    m.checkedSlicePixel (grid 0) radius (slicePosition direction coordinate
      (pixelU bounds.1 (grid 0) column) (pixelV bounds.2 (grid 1) row)) row column buffers) buffers

/-- `evaluate_field_slice`. -/
def checkedFieldSlice (m : AnalyticsManager F) (direction : SliceDirection) (coordinate : F)
    (grid : Fin 2 → ℕ) (radius zLength : F) (stopRequested : ℕ → Bool) : Checked (FieldSlice F) :=
  if grid 0 < 2 ∨ grid 1 < 2 then refuse "Slice grid dimensions must be at least 2"
  else if radius ≤ 0 ∨ zLength ≤ 0 then refuse "Radius and length must be positive"
  else if (direction = .z ∧ zLength * 0.5 < abs coordinate)
      ∨ (direction ≠ .z ∧ radius < abs coordinate) then
    refuse "Slice coordinate is outside the TPC geometry"
  else if m.coefficientsMissing then refuse "SVD coefficients are not calculated"
  else do
    let most ← Checked.div sizeMax (grid 1)
    if most < grid 0 then refuse "Slice grid is too large"
    else do
      let pixelCount ← Checked.mul (grid 0) (grid 1)
      let most ← Checked.div sizeMax kDimension
      if most < pixelCount then refuse "Slice grid is too large"
      else do
        let size ← Checked.mul pixelCount kDimension
        if vectorMax < size then Checked.lift (.error (.exception .badAlloc))
        else do
          let bounds := sliceBounds direction coordinate radius zLength
          -- the two differences in the denominators of `du` and `dv`
          let _ ← Checked.sub (grid 0) 1
          let _ ← Checked.sub (grid 1) 1
          let buffers ← (List.range (grid 1)).foldlM
            (m.checkedSliceRow direction coordinate radius grid bounds stopRequested)
            (fresh (resize size []), fresh (List.replicate pixelCount 0))
          return ⟨direction, coordinate, grid, bounds.1, bounds.2, contents buffers.1,
            contents buffers.2⟩

end AnalyticsManager

/-! ## The set-up of the least-squares problem -/

namespace SVDSolver

open MeasurementConcept

/-- One entry. The rows of the matrix are buffers of their own. -/
def checkedWriteEntry (f : HeaderFunction F) (coordinates : List F) (row : ℕ)
    (matrix : List (Buffer F)) (mode : ℕ) : Checked (List (Buffer F)) := do
  let v ← Checked.lift (f.invokeFromSpan mode coordinates)
  let entries ← Checked.read matrix row
  let entries ← Checked.write entries (← Checked.cast mode) v
  return matrix.set row entries

def checkedWriteRow (basis : List (HeaderFunction F)) (modes fieldDimension : ℕ)
    (coordinates values : List F) (measurementIndex : ℕ) (d : List (Buffer F) × Buffer F)
    (component : ℕ) : Checked (List (Buffer F) × Buffer F) := do
  let row ← Checked.cast
    (← Checked.add (← Checked.mul fieldDimension measurementIndex) component)
  let value ← Checked.read values component
  let valuesVector ← Checked.write d.2 row value
  let f ← Checked.read basis component
  let matrix ← (List.range modes).foldlM (checkedWriteEntry f coordinates row) d.1
  return (matrix, valuesVector)

variable {M : Type} [MeasurementConcept M F]

def checkedMeasurement (basis : List (HeaderFunction F)) (modes fieldDimension : ℕ)
    (d : List (Buffer F) × Buffer F) (m : M × ℕ) : Checked (List (Buffer F) × Buffer F) :=
  let coordinates := getPointComponents m.1
  let values := getFieldComponents m.1
  if coordinates.length ≠ fieldDimension ∨ values.length ≠ fieldDimension then
    refuse "Measurement dimensions are inconsistent"
  else (List.range fieldDimension).foldlM
    (checkedWriteRow basis modes fieldDimension coordinates values m.2) d

/-- What `solve_svd` hands to the decomposition. -/
def checkedSetUp (measurements : List M) (basis : List (HeaderFunction F)) (modes : ℕ)
    (threshold : F) : Checked (Design F) :=
  match measurements with
  | [] => refuse "Measurement collection is empty"
  | front :: _ =>
    if basis.isEmpty then refuse "Basis functions collection is empty"
    else if modes = 0 then refuse "Modes count must be greater than zero"
    else if threshold < 0 then refuse "SVD threshold cannot be negative"
    else
      let fieldDimension := (getPointComponents front).length
      if fieldDimension = 0 then refuse "Measurement dimension must be greater than zero"
      else if basis.length ≠ fieldDimension then
        refuse "Number of basis functions must equal field dimension"
      else do
        let most ← Checked.div indexMax fieldDimension
        if most < measurements.length then refuse "Measurement matrix is too large"
        else if indexMax < modes then refuse "Modes count is too large"
        else do
          let rows ← Checked.cast (← Checked.mul measurements.length fieldDimension)
          let columns ← Checked.cast modes
          let d ← measurements.zipIdx.foldlM (checkedMeasurement basis modes fieldDimension)
            (List.replicate rows (fresh (List.replicate columns 0)), fresh (List.replicate rows 0))
          return ⟨columns, d.1.map contents, contents d.2⟩

end SVDSolver

/-! ## Slices in step -/

section ModeSum

variable {basis : List (HeaderFunction F)} {coefficients : List F}

theorem lockstep_mode (hbasis : 3 ≤ basis.length) {mode : ℕ} (hmode : mode < coefficients.length)
    (hindex : mode ≤ indexMax) (c components : Fin 3 → F) :
    Lockstep Sum.inr Eq (checkedMode basis coefficients c components mode)
      (addMode basis coefficients c components mode) := by
  rw [checkedMode, cast_of_le hindex, Fold.ok_bind]
  refine (lockstep_read hmode).bind ?_
  rintro coefficient _ rfl
  refine Lockstep.foldlM (R := fun _ => Eq) (fun _ i _ components _ h => ?_) rfl
  subst h
  refine (lockstep_read (by omega)).bind ?_
  rintro f _ rfl
  refine (lockstep_lift _).bind ?_
  rintro v _ rfl
  exact .ok rfl

theorem lockstep_modeSum (hbasis : 3 ≤ basis.length) {modes : ℕ}
    (hmodes : modes ≤ coefficients.length) (hindex : modes ≤ indexMax) (c : Fin 3 → F) :
    Lockstep Sum.inr Eq (checkedModeSum basis coefficients modes c)
      (modeSum basis coefficients modes c) := by
  refine Lockstep.foldlM_range (R := fun _ => Eq) (fun mode hmode components _ h => ?_) rfl
  subst h
  exact lockstep_mode hbasis (by omega) (by omega) c components

end ModeSum

namespace AnalyticsManager

variable {m : AnalyticsManager F} {width n i : ℕ} {radius : F} {p : F × F × F}
  {xs : Buffer F × Buffer ℕ} {ys : List F × List ℕ}

theorem Contained.lockstep_modeSum (h : m.Contained) (hc : ¬ m.coefficientsMissing)
    (c : Fin 3 → F) : Lockstep Sum.inr Eq (checkedModeSum m.basisCollection.basis
      m.storedCoefficients m.basisCollection.modes c) (m.modeSumAt c) := by
  obtain ⟨g, hg⟩ := h.wellFitted hc
  have hbasis : m.basisCollection.basis.length = 3 := by rw [hg.basis, List.length_ofFn]
  have hindex : m.basisCollection.modes ≤ indexMax := by
    have hlength := not_not.mp hc
    rw [hg.length] at hlength
    exact le_indexMax_of_toIndex hlength
  exact Analytics.lockstep_modeSum hbasis.ge hg.length.ge hindex c

/-- Buffers for `n` pixels, of which those from pixel `i` on have not been written. -/
structure PixelAgree (n i : ℕ) (xs : Buffer F × Buffer ℕ) (ys : List F × List ℕ) : Prop where
  field : Agree (i * 3) xs.1 ys.1
  valid : Agree i xs.2 ys.2
  sized : Sized n ys

theorem pixelAgree_fresh (n : ℕ) : PixelAgree n 0
    (fresh (resize (n * kDimension) ([] : List F)), fresh (List.replicate n 0))
    (resize (n * kDimension) [], List.replicate n 0) where
  field := by rw [Nat.zero_mul]; exact agree_fresh _
  valid := agree_fresh _
  sized := ⟨length_resize _ _, List.length_replicate⟩

/-- **A pixel writes to its own elements**, and no operation of it wraps. -/
theorem lockstep_slicePixel {row column : ℕ} (hm : m.Contained) (hc : ¬ m.coefficientsMissing)
    (hi : row * width + column = i) (hin : i < n) (hn : n * 3 ≤ sizeMax)
    (h : PixelAgree n i xs ys) : Lockstep Sum.inr (PixelAgree n (i + 1))
      (m.checkedSlicePixel width radius p row column xs)
      (m.slicePixel width radius p row column ys) := by
  obtain ⟨hfield, hvalid⟩ := h.sized
  have h₀ : row * width ≤ sizeMax := by omega
  have h₁ : row * width + column ≤ sizeMax := by omega
  have h₂ : i * kDimension ≤ sizeMax := by unfold kDimension; omega
  have h₃ : i * kDimension + 1 ≤ sizeMax := by unfold kDimension; omega
  have h₄ : i * kDimension + 2 ≤ sizeMax := by unfold kDimension; omega
  unfold checkedSlicePixel slicePixel
  split_ifs with hout
  · exact .ok ⟨h.field.mono (by omega), h.valid.mono (by omega), h.sized⟩
  refine (hm.lockstep_modeSum hc _).bind ?_
  rintro b _ rfl
  dsimp only
  rw [mul_of_le h₀, wrap_of_le h₀, Fold.ok_bind, add_of_le h₁, wrap_of_le h₁, Fold.ok_bind, hi,
    mul_of_le h₂, wrap_of_le h₂, Fold.ok_bind]
  refine (lockstep_write h.field (by omega) _).bind ?_
  rintro f₁ g₁ ⟨hf₁, hg₁⟩
  rw [add_of_le h₃, wrap_of_le h₃, Fold.ok_bind]
  refine (lockstep_write hf₁ (by omega) _).bind ?_
  rintro f₂ g₂ ⟨hf₂, hg₂⟩
  rw [add_of_le h₄, wrap_of_le h₄, Fold.ok_bind]
  refine (lockstep_write hf₂ (by omega) _).bind ?_
  rintro f₃ g₃ ⟨hf₃, hg₃⟩
  refine (lockstep_write h.valid (by omega) _).bind ?_
  rintro v w ⟨hv, hw⟩
  have hsized : Sized n (g₃, w) := ⟨hg₃.trans (hg₂.trans (hg₁.trans hfield)), hw.trans hvalid⟩
  exact .ok ⟨hf₃.mono (by omega), hv, hsized⟩

/-- **A row of pixels.** -/
theorem lockstep_sliceRow {direction : SliceDirection} {coordinate : F} {grid : Fin 2 → ℕ}
    {bounds : (F × F) × (F × F)} {stopRequested : ℕ → Bool} {row : ℕ}
    (hm : m.Contained) (hc : ¬ m.coefficientsMissing)
    (hrow : row < grid 1) (hn : grid 0 * grid 1 * 3 ≤ sizeMax)
    (h : PixelAgree (grid 0 * grid 1) (row * grid 0) xs ys) :
    Lockstep Sum.inr (PixelAgree (grid 0 * grid 1) ((row + 1) * grid 0))
      (m.checkedSliceRow direction coordinate radius grid bounds stopRequested xs row)
      (m.sliceRow direction coordinate radius grid bounds stopRequested ys row) := by
  have hend : row * grid 0 + grid 0 = (row + 1) * grid 0 := (Nat.succ_mul row (grid 0)).symm
  unfold checkedSliceRow sliceRow
  refine .check fun _ => ?_
  rw [← hend]
  refine Lockstep.foldlM_range (R := fun column => PixelAgree (grid 0 * grid 1)
    (row * grid 0 + column)) (fun column hcolumn xs ys hxy => ?_) h
  exact lockstep_slicePixel hm hc rfl (Fold.mul_add_lt_mul hrow hcolumn) hn hxy

/-- **The checked evaluation of a slice is the evaluation.** -/
theorem checkedFieldSlice_eq (h : m.Contained) (direction : SliceDirection) (coordinate : F)
    (grid : Fin 2 → ℕ) (radius zLength : F) (stopRequested : ℕ → Bool) :
    m.checkedFieldSlice direction coordinate grid radius zLength stopRequested = Checked.lift
      (m.evaluateFieldSlice direction coordinate grid radius zLength stopRequested) := by
  apply lockstep_eq_iff.mp
  unfold checkedFieldSlice evaluateFieldSlice
  refine .check fun hgrid => .check fun _ => .check fun _ => .check fun hmissing => ?_
  rw [div_of_ne (by omega), Fold.ok_bind]
  refine .check fun hlarge => ?_
  have hproduct : grid 0 * grid 1 ≤ sizeMax :=
    (Nat.le_div_iff_mul_le (by omega)).mp (Nat.not_lt.mp hlarge)
  rw [mul_of_le hproduct, Fold.ok_bind, div_of_ne (by decide), Fold.ok_bind, wrap_of_le hproduct]
  refine .check fun hlarge => ?_
  have hsize : grid 0 * grid 1 * kDimension ≤ sizeMax :=
    (Nat.le_div_iff_mul_le (by decide)).mp (Nat.not_lt.mp hlarge)
  rw [mul_of_le hsize, wrap_of_le hsize, Fold.ok_bind]
  refine .check fun _ => ?_
  rw [sub_of_le (by omega), Fold.ok_bind, sub_of_le (by omega), Fold.ok_bind]
  refine (Lockstep.foldlM_range (R := fun row => PixelAgree (grid 0 * grid 1) (row * grid 0))
    (fun row hrow xs ys hxy => ?_) ?_).bind fun xs ys hxy => ?_
  · exact lockstep_sliceRow h hmissing hrow hsize hxy
  · rw [Nat.zero_mul]
    exact pixelAgree_fresh _
  · rw [hxy.field.contents, hxy.valid.contents]
    exact .ok rfl

end AnalyticsManager

/-! ## Set-ups in step -/

namespace SVDSolver

open MeasurementConcept

variable {rows columns r k : ℕ} {xs : List (Buffer F)} {ys : List (List F)}

/-- Matrices of which the rows from `r` on have not been written, except for the first `k` entries of
row `r`. -/
structure MatrixAgree (rows columns r k : ℕ) (xs : List (Buffer F)) (ys : List (List F)) : Prop where
  contents : xs.map contents = ys
  length : ys.length = rows
  width : ∀ y ∈ ys, y.length = columns
  current : ∀ x, xs[r]? = some x → Unwritten k x
  later : ∀ j, r < j → ∀ x, xs[j]? = some x → Unwritten 0 x

omit [Arith F] in
/-- **An entry.** -/
theorem lockstep_writeEntry (f : HeaderFunction F) (coordinates : List F) (hr : r < rows)
    (hk : k < columns) (hcolumns : columns ≤ indexMax) (h : MatrixAgree rows columns r k xs ys) :
    Lockstep Sum.inr (MatrixAgree rows columns r (k + 1)) (checkedWriteEntry f coordinates r xs k)
      (writeEntry f coordinates r ys k) := by
  have hlength : xs.length = rows := by rw [← h.length, ← h.contents, List.length_map]
  obtain ⟨x, hx⟩ : ∃ x, xs[r]? = some x := ⟨_, List.getElem?_eq_getElem (hlength ▸ hr)⟩
  have hy : ys[r]? = some (Checked.contents x) := by
    rw [← h.contents, List.getElem?_map, hx, Option.map_some]
  have hagree : Agree k x (Checked.contents x) := ⟨rfl, h.current x hx⟩
  have hwidth : (Checked.contents x).length = columns := h.width _ (List.mem_of_getElem? hy)
  refine (lockstep_lift _).bind ?_
  rintro v _ rfl
  rw [Checked.read, hx, Fold.ok_bind, Int.toNat_natCast, readAt_eq_ok.mpr hy, Fold.ok_bind,
    cast_of_le (by omega), Fold.ok_bind, toIndex_of_le (by omega)]
  refine (lockstep_write hagree (by omega) v).bind ?_
  rintro x' y' ⟨hx', hy'⟩
  rw [writeAt_of_lt (h.length ▸ hr)]
  refine .ok ⟨?_, ?_, fun y hmem => ?_, fun z hz => ?_, fun j hj z hz => ?_⟩
  · rw [List.map_set, h.contents, hx'.contents]
  · rw [List.length_set, h.length]
  · rcases List.mem_or_eq_of_mem_set hmem with hmem | rfl
    · exact h.width y hmem
    · exact hy'.trans hwidth
  · rw [List.getElem?_set_self (hlength ▸ hr)] at hz
    obtain rfl := Option.some.inj hz
    exact hx'.unwritten
  · rw [List.getElem?_set_ne (Nat.ne_of_lt hj)] at hz
    exact h.later j hj z hz

omit [Arith F] in
theorem MatrixAgree.next (h : MatrixAgree rows columns r k xs ys) :
    MatrixAgree rows columns (r + 1) 0 xs ys :=
  ⟨h.contents, h.length, h.width, h.later (r + 1) (Nat.lt_succ_self r),
    fun j hj => h.later j (Nat.lt_of_succ_lt hj)⟩

/-- The matrix and the right-hand side, of which the rows from `r` on have not been written. -/
structure DesignAgree (rows columns r : ℕ) (xs : List (Buffer F) × Buffer F) (d : Design F) :
    Prop where
  size : d.columns = columns
  matrix : MatrixAgree rows columns r 0 xs.1 d.matrix
  values : Agree r xs.2 d.values
  length : d.values.length = rows

variable {basis : List (HeaderFunction F)} {modes fieldDimension : ℕ}
  {xd : List (Buffer F) × Buffer F} {d : Design F}

omit [Arith F] in
/-- **A row.** -/
theorem lockstep_writeRow {coordinates values : List F} {measurementIndex component : ℕ}
    (hr : fieldDimension * measurementIndex + component = r) (hrows : r < rows)
    (hindex : rows ≤ indexMax) (hmodes : modes ≤ indexMax) (hvalues : component < values.length)
    (hbasis : component < basis.length) (h : DesignAgree rows modes r xd d) :
    Lockstep Sum.inr (DesignAgree rows modes (r + 1))
      (checkedWriteRow basis modes fieldDimension coordinates values measurementIndex xd component)
      (writeRow basis modes fieldDimension coordinates values measurementIndex d component) := by
  have hmax : indexMax ≤ sizeMax := by decide
  have h₀ : fieldDimension * measurementIndex ≤ sizeMax := by omega
  have h₁ : fieldDimension * measurementIndex + component ≤ sizeMax := by omega
  have h₂ : r ≤ indexMax := by omega
  unfold checkedWriteRow writeRow
  rw [mul_of_le h₀, wrap_of_le h₀, Fold.ok_bind, add_of_le h₁, wrap_of_le h₁, Fold.ok_bind, hr,
    cast_of_le h₂, toIndex_of_le h₂, Fold.ok_bind]
  refine (lockstep_read hvalues).bind ?_
  rintro value _ rfl
  refine (lockstep_write h.values (by rw [h.length]; exact hrows) value).bind ?_
  rintro w w' ⟨hw, hw'⟩
  refine (lockstep_read hbasis).bind ?_
  rintro f _ rfl
  refine (Lockstep.foldlM_range (R := fun k => MatrixAgree rows modes r k)
    (fun k hk xs ys hxy => lockstep_writeEntry f coordinates hrows hk hmodes hxy)
    h.matrix).bind fun xs ys hxy => ?_
  exact .ok ⟨h.size, hxy.next, hw, hw'.trans h.length⟩

theorem designAgree_fresh (rows columns : ℕ) : DesignAgree rows columns 0
    (List.replicate rows (fresh (List.replicate columns (0 : F))), fresh (List.replicate rows 0))
    (emptyDesign rows columns) where
  size := rfl
  matrix := by
    have hrow : ∀ (j : ℕ) (x : Buffer F),
        (List.replicate rows (fresh (List.replicate columns 0)))[j]? = some x → Unwritten 0 x := by
      intro j x hx
      obtain rfl := (List.mem_replicate.mp (List.mem_of_getElem? hx)).2
      exact (agree_fresh _).unwritten
    refine ⟨?_, List.length_replicate, fun y hy => ?_, hrow 0, fun j _ => hrow j⟩
    · rw [List.map_replicate, (agree_fresh _).contents]
      rfl
    · rw [(List.mem_replicate.mp hy).2]
      exact List.length_replicate
  values := agree_fresh _
  length := List.length_replicate

variable {M : Type} [MeasurementConcept M F]

omit [Arith F] in
/-- **A measurement.** -/
theorem lockstep_measurement {count i : ℕ} (m : M) (hi : i < count)
    (hindex : count * fieldDimension ≤ indexMax) (hmodes : modes ≤ indexMax)
    (hbasis : basis.length = fieldDimension)
    (h : DesignAgree (count * fieldDimension) modes (i * fieldDimension) xd d) :
    Lockstep Sum.inr (DesignAgree (count * fieldDimension) modes ((i + 1) * fieldDimension))
      (checkedMeasurement basis modes fieldDimension xd (m, i))
      (writeMeasurement basis modes fieldDimension d (m, i)) := by
  have hend : i * fieldDimension + fieldDimension = (i + 1) * fieldDimension :=
    (Nat.succ_mul i fieldDimension).symm
  unfold checkedMeasurement writeMeasurement
  refine .check fun hdimensions => ?_
  rw [not_or, not_not, not_not] at hdimensions
  rw [← hend]
  refine Lockstep.foldlM_range (R := fun component => DesignAgree (count * fieldDimension) modes
    (i * fieldDimension + component)) (fun component hcomponent xd d hxd => ?_) h
  have hrow : fieldDimension * i + component = i * fieldDimension + component := by
    rw [Nat.mul_comm]
  have hlt : i * fieldDimension + component < count * fieldDimension := by
    rw [Nat.mul_comm count]
    exact Fold.mul_add_lt_mul hi hcomponent
  exact lockstep_writeRow hrow hlt hindex hmodes (by omega) (by omega) hxd

/-- **The checked set-up is the set-up**, for measurements of any number and dimension. -/
theorem checkedSetUp_eq (measurements : List M) (basis : List (HeaderFunction F)) (modes : ℕ)
    (threshold : F) : checkedSetUp measurements basis modes threshold =
      Checked.lift (design measurements basis modes threshold) := by
  apply lockstep_eq_iff.mp
  unfold checkedSetUp design
  cases measurements with
  | nil => exact .error _
  | cons front rest =>
    dsimp only
    generalize front :: rest = measurements
    generalize (getPointComponents front).length = fieldDimension
    refine .check fun _ => .check fun _ => .check fun _ => .check fun hdimension =>
      .check fun hbasis => ?_
    rw [div_of_ne hdimension, Fold.ok_bind]
    refine .check fun hlarge => .check fun hmodes => ?_
    have hrows : measurements.length * fieldDimension ≤ indexMax :=
      (Nat.le_div_iff_mul_le (Nat.pos_of_ne_zero hdimension)).mp (Nat.not_lt.mp hlarge)
    have hcolumns : modes ≤ indexMax := Nat.not_lt.mp hmodes
    have hsize : measurements.length * fieldDimension ≤ sizeMax := hrows.trans (by decide)
    rw [mul_of_le hsize, Fold.ok_bind, cast_of_le hrows, Fold.ok_bind, cast_of_le hcolumns,
      Fold.ok_bind, wrap_of_le hsize, toIndex_of_le hrows, toIndex_of_le hcolumns]
    rw [← bind_pure (measurements.zipIdx.foldlM _ (emptyDesign _ _))]
    refine (Lockstep.foldlM (R := fun i => DesignAgree (measurements.length * fieldDimension) modes
      (i * fieldDimension)) (fun i m hm xd d hxd => ?_) ?_).bind fun xd d hxd => ?_
    · rw [List.getElem?_zipIdx, Option.map_eq_some_iff, Nat.zero_add] at hm
      obtain ⟨m, hm, rfl⟩ := hm
      have hi : i < measurements.length := (List.getElem?_eq_some_iff.mp hm).1
      exact lockstep_measurement m hi hrows hcolumns (not_not.mp hbasis) hxd
    · rw [Nat.zero_mul]
      exact designAgree_fresh _ _
    · rw [hxd.matrix.contents, hxd.values.contents, ← hxd.size]
      exact .ok rfl

end SVDSolver

/-! ## The addresses -/

/-- The element of the mask that belongs to a pixel. -/
def pixelIndex (grid : Fin 2 → ℕ) (row column : ℕ) : ℕ := wrap (wrap (row * grid 0) + column)

/-- The row of the matrix that belongs to a component of a measurement. -/
def rowIndex (fieldDimension measurementIndex component : ℕ) : ℤ :=
  toIndex (wrap (wrap (fieldDimension * measurementIndex) + component))

theorem pixelIndex_eq {grid : Fin 2 → ℕ} (hgrid : ¬ sizeMax / grid 1 < grid 0) {row column : ℕ}
    (hrow : row < grid 1) (hcolumn : column < grid 0) :
    pixelIndex grid row column = row * grid 0 + column := by
  have hproduct : grid 0 * grid 1 ≤ sizeMax :=
    (Nat.le_div_iff_mul_le (Nat.zero_lt_of_lt hrow)).mp (Nat.not_lt.mp hgrid)
  have hlt := Fold.mul_add_lt_mul hrow hcolumn
  rw [pixelIndex, wrap_of_le (n := row * grid 0) (by omega), wrap_of_le (by omega)]

theorem rowIndex_eq {fieldDimension count : ℕ} (hsize : ¬ indexMax / fieldDimension < count)
    {i component : ℕ} (hi : i < count) (hcomponent : component < fieldDimension) :
    rowIndex fieldDimension i component = (i * fieldDimension + component : ℕ) := by
  have hproduct : count * fieldDimension ≤ indexMax :=
    (Nat.le_div_iff_mul_le (Nat.zero_lt_of_lt hcomponent)).mp (Nat.not_lt.mp hsize)
  rw [Nat.mul_comm] at hproduct
  have hlt := Fold.mul_add_lt_mul hi hcomponent
  have hmax : indexMax ≤ sizeMax := by decide
  rw [rowIndex, Nat.mul_comm, wrap_of_le (n := i * fieldDimension) (by omega),
    wrap_of_le (by omega), toIndex_of_le (by omega)]

/-- The checked functions do what the functions do, and the addresses are different ones. -/
structure ExactSizes (m : AnalyticsManager F) : Prop where
  /-- `evaluate_field_slice`, for a grid of any size. -/
  slice : ∀ direction coordinate grid radius zLength stopRequested,
    m.checkedFieldSlice direction coordinate grid radius zLength stopRequested =
      Checked.lift (m.evaluateFieldSlice direction coordinate grid radius zLength stopRequested)
  /-- The set-up of `solve_svd`, for measurements of any number and dimension. -/
  setUp : ∀ (M : Type) [MeasurementConcept M F] (measurements : List M) basis modes threshold,
    SVDSolver.checkedSetUp measurements basis modes threshold =
      Checked.lift (SVDSolver.design measurements basis modes threshold)
  /-- Behind the guards different pixels have different elements, -/
  pixels : ∀ grid : Fin 2 → ℕ, ¬ sizeMax / grid 1 < grid 0 →
    ∀ row < grid 1, ∀ column < grid 0, ∀ row' < grid 1, ∀ column' < grid 0,
      pixelIndex grid row column = pixelIndex grid row' column' → row = row' ∧ column = column'
  /-- and different components of the measurements have different rows. -/
  rows : ∀ fieldDimension count, ¬ indexMax / fieldDimension < count →
    ∀ i < count, ∀ component < fieldDimension, ∀ i' < count, ∀ component' < fieldDimension,
      rowIndex fieldDimension i component = rowIndex fieldDimension i' component' →
        i = i' ∧ component = component'

/-- **Sizes are exact**: no operation on them wraps, no divisor is zero, no index is outside its buffer, and
no two rounds of the loops write to one element. -/
theorem exactSizes {svd : JacobiSVD F} {m : AnalyticsManager F} (hm : m.Reachable svd) :
    ExactSizes m := by
  obtain ⟨basis, m₀, calls, hb, hr⟩ := hm
  have hcontained : m.Contained :=
    AnalyticsManager.contained_run (AnalyticsManager.contained_create hb) hr
  refine ⟨AnalyticsManager.checkedFieldSlice_eq hcontained, fun _ _ => SVDSolver.checkedSetUp_eq,
    fun grid hgrid row hrow column hcolumn row' hrow' column' hcolumn' h => ?_,
    fun fieldDimension count hsize i hi component hc i' hi' component' hc' h => ?_⟩
  · rw [pixelIndex_eq hgrid hrow hcolumn, pixelIndex_eq hgrid hrow' hcolumn'] at h
    exact Fold.mul_add_inj hcolumn hcolumn' h
  · rw [rowIndex_eq hsize hi hc, rowIndex_eq hsize hi' hc'] at h
    exact Fold.mul_add_inj hc hc' (Int.ofNat_inj.mp h)

/-- `exactSizes` after one fit. -/
theorem exactSizes_sensor :
    AnalyticsManager.Reachable AnalyticsManager.columnSVD (AnalyticsManager.fitted none false 1) ∧
      ExactSizes (AnalyticsManager.fitted none false 1) := by
  have hreach : AnalyticsManager.Reachable AnalyticsManager.columnSVD
      (AnalyticsManager.fitted none false 1) :=
    ⟨AnalyticsManager.oneBasis, _, _, AnalyticsManager.create_oneBasis,
      .call .nil _ _ (AnalyticsManager.ends_sensor 1)⟩
  exact ⟨hreach, exactSizes hreach⟩

end TPC.Analytics
