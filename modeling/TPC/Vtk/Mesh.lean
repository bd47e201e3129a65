import TPC.Vtk.Format

/-!
# What an accepted input gives

For any coordinates, in any arithmetic: what the scans of the exporter return, and what is known of the
triangles and of the cells that it writes.

* `layerEnd_spec`, `rowEnd_spec`, **`detectRows_spec`**: `Covers`, `Level`;
* `Triangle.Proper`, `stripWalk_total`, **`triangulate_total`**;
* `Accepted`, **`buildFile_eq_ok`**: what the checks establish;
* `WellFormed`, **`wellFormed_fileOf`**: the file of an accepted input is a well-formed grid.
-/

namespace TPC

namespace Vtk

open Fold Analytics

variable {F : Type} [Arith F] {points : List (CartesianPoint F)}

/-! ## Scans -/

theorem layerEnd_spec {z : F} {i : ℕ} (hi : i ≤ points.length) :
    ∃ e, layerEnd points z i = .ok e ∧ i ≤ e ∧ e ≤ points.length ∧
      (∀ k, i ≤ k → k < e → ∃ p, points[k]? = some p ∧ approximatelyEqual p.z z) ∧
      (e < points.length → ∃ p, points[e]? = some p ∧ ¬ approximatelyEqual p.z z) := by
  induction h : points.length - i generalizing i with
  | zero =>
    rw [layerEnd, if_neg (by omega)]
    exact ⟨i, rfl, le_rfl, hi, fun k hk hk' => by omega, fun he => by omega⟩
  | succ n ih =>
    have hlt : i < points.length := by omega
    have hp : points[i]? = some points[i] := List.getElem?_eq_getElem hlt
    rw [layerEnd, if_pos hlt, readAt_eq_ok.mpr hp, ok_bind]
    split_ifs with hz
    · obtain ⟨e, he, hle, hlen, hin, hout⟩ := ih (i := i + 1) (by omega) (by omega)
      refine ⟨e, he, by omega, hlen, fun k hk hk' => ?_, hout⟩
      by_cases hki : k = i
      · subst hki
        exact ⟨_, hp, hz⟩
      · exact hin k (by omega) hk'
    · exact ⟨i, rfl, le_rfl, hi, fun k hk hk' => by omega, fun _ => ⟨_, hp, hz⟩⟩

theorem rowEnd_spec {ppl : ℕ} {y : F} {i : ℕ} (hi : i ≤ ppl) (hppl : ppl ≤ points.length) :
    ∃ e, rowEnd points ppl y i = .ok e ∧ i ≤ e ∧ e ≤ ppl ∧
      (∀ k, i ≤ k → k < e → ∃ p, points[k]? = some p ∧ approximatelyEqual p.y y) ∧
      (e < ppl → ∃ p, points[e]? = some p ∧ ¬ approximatelyEqual p.y y) := by
  induction h : ppl - i generalizing i with
  | zero =>
    rw [rowEnd, if_neg (by omega)]
    exact ⟨i, rfl, le_rfl, hi, fun k hk hk' => by omega, fun he => by omega⟩
  | succ n ih =>
    have hp : points[i]? = some points[i] := List.getElem?_eq_getElem (by omega)
    rw [rowEnd, if_pos (by omega), readAt_eq_ok.mpr hp, ok_bind]
    split_ifs with hy
    · obtain ⟨e, he, hle, hlen, hin, hout⟩ := ih (i := i + 1) (by omega) (by omega)
      refine ⟨e, he, by omega, hlen, fun k hk hk' => ?_, hout⟩
      by_cases hki : k = i
      · subst hki
        exact ⟨_, hp, hy⟩
      · exact hin k (by omega) hk'
    · exact ⟨i, rfl, le_rfl, hi, fun k hk hk' => by omega, fun _ => ⟨_, hp, hy⟩⟩

/-! ## Rows -/

/-- The rows cover the points from `b` to `e`: each one begins where the one before ends. -/
def Covers : ℕ → ℕ → List Row → Prop
  | b, e, [] => b = e
  | b, e, row :: rows => row.begin = b ∧ b < row.stop ∧ Covers row.stop e rows

/-- The points of a row have the height of its first point, and the next one has not. -/
def Level (points : List (CartesianPoint F)) (ppl : ℕ) (row : Row) : Prop :=
  ∃ front, points[row.begin]? = some front ∧
    (∀ k, row.begin < k → k < row.stop → ∃ p, points[k]? = some p ∧ approximatelyEqual p.y front.y) ∧
    (row.stop < ppl → ∃ p, points[row.stop]? = some p ∧ ¬ approximatelyEqual p.y front.y)

/-- **The rows of a layer.** -/
theorem detectRows_spec {ppl fuel b : ℕ} (hb : b ≤ ppl) (hppl : ppl ≤ points.length)
    (hfuel : ppl - b ≤ fuel) : ∃ rows, detectRows points ppl fuel b = .ok rows ∧ Covers b ppl rows ∧
      ∀ row ∈ rows, Level points ppl row := by
  induction fuel generalizing b with
  | zero =>
    rw [detectRows, if_neg (by omega)]
    refine ⟨[], rfl, ?_, fun row hrow => absurd hrow List.not_mem_nil⟩
    show b = ppl
    omega
  | succ fuel ih =>
    rw [detectRows]
    split_ifs with hlt
    · have hfront : points[b]? = some points[b] := List.getElem?_eq_getElem (by omega)
      obtain ⟨e, he, hle, hlen, hin, hout⟩ := rowEnd_spec (y := points[b].y) (i := b + 1) hlt hppl
      obtain ⟨rows, hrows, hcovers, hlevel⟩ := ih (b := e) hlen (by omega)
      rw [readAt_eq_ok.mpr hfront, ok_bind, he, ok_bind, hrows]
      refine ⟨⟨b, e⟩ :: rows, rfl, ⟨rfl, hle, hcovers⟩, List.forall_mem_cons.mpr ⟨?_, hlevel⟩⟩
      exact ⟨_, hfront, fun k hk hk' => hin k hk hk', hout⟩
    · refine ⟨[], rfl, ?_, fun row hrow => absurd hrow List.not_mem_nil⟩
      show b = ppl
      omega

theorem Covers.le {b e : ℕ} {rows : List Row} (h : Covers b e rows) : b ≤ e := by
  induction rows generalizing b with
  | nil => exact le_of_eq h
  | cons row rows ih => exact h.2.1.le.trans (ih h.2.2)

theorem Covers.getElem {b e i : ℕ} {rows : List Row} (h : Covers b e rows) (hi : i < rows.length) :
    b ≤ rows[i].begin ∧ rows[i].begin < rows[i].stop ∧ rows[i].stop ≤ e ∧
      ∀ hj : i + 1 < rows.length, rows[i + 1].begin = rows[i].stop := by
  induction rows generalizing b i with
  | nil => exact absurd hi (Nat.not_lt_zero i)
  | cons row rows ih =>
    obtain ⟨rfl, hlt, hrest⟩ := h
    cases i with
    | zero =>
      refine ⟨le_rfl, hlt, hrest.le, fun hj => ?_⟩
      cases rows with
      | nil => exact absurd hj (lt_irrefl 1)
      | cons row' rows => exact hrest.1
    | succ i =>
      obtain ⟨hb, hmid, he, hnext⟩ := ih hrest (Nat.lt_of_succ_lt_succ hi)
      exact ⟨hlt.le.trans hb, hmid, he, fun hj => hnext (Nat.lt_of_succ_lt_succ hj)⟩

/-! ## Triangles -/

/-- Three different points among the first `n`. -/
structure Triangle.Proper (n : ℕ) (t : Triangle) : Prop where
  lt₁ : t.1 < n
  lt₂ : t.2.1 < n
  lt₃ : t.2.2 < n
  ne₁₂ : t.1 ≠ t.2.1
  ne₁₃ : t.1 ≠ t.2.2
  ne₂₃ : t.2.1 ≠ t.2.2

theorem Triangle.Proper.swap {n a b c : ℕ} (h : Triangle.Proper n (a, b, c)) : Triangle.Proper n (a, c, b) :=
  ⟨h.lt₁, h.lt₃, h.lt₂, h.ne₁₃, h.ne₁₂, h.ne₂₃.symm⟩

variable {n : ℕ} {ts : List Triangle}

theorem addTriangle_total (hn : n ≤ points.length) {a b c : ℕ} (h : Triangle.Proper n (a, b, c))
    (hts : ∀ t ∈ ts, Triangle.Proper n t) :
    ∃ ts', addTriangle points ts a b c = .ok ts' ∧ ∀ t ∈ ts', Triangle.Proper n t := by
  have hone : ∀ {t : Triangle}, Triangle.Proper n t → ∀ t' ∈ ts ++ [t], Triangle.Proper n t' := by
    intro t ht t' ht'
    rcases List.mem_append.mp ht' with h' | h'
    · exact hts t' h'
    · rwa [List.mem_singleton.mp h']
  rw [addTriangle, readAt_of_lt (h.lt₁.trans_le hn), ok_bind, readAt_of_lt (h.lt₂.trans_le hn), ok_bind,
    readAt_of_lt (h.lt₃.trans_le hn), ok_bind]
  dsimp only
  split_ifs
  · exact ⟨ts, rfl, hts⟩
  · exact ⟨_, rfl, hone h.swap⟩
  · exact ⟨_, rfl, hone h⟩

theorem exists_proper_bind {x : Call (List Triangle)} {f : List Triangle → Call (List Triangle)}
    (hx : ∃ ts', x = .ok ts' ∧ ∀ t ∈ ts', Triangle.Proper n t)
    (hf : ∀ ts', (∀ t ∈ ts', Triangle.Proper n t) →
      ∃ ts'', f ts' = .ok ts'' ∧ ∀ t ∈ ts'', Triangle.Proper n t) :
    ∃ ts'', x >>= f = .ok ts'' ∧ ∀ t ∈ ts'', Triangle.Proper n t := by
  obtain ⟨ts', rfl, hts'⟩ := hx
  exact hf ts' hts'

/-- **The walk ends**, and reads only the points of its two rows. -/
theorem stripWalk_total (hn : n ≤ points.length) {lower upper : Row} (hmeet : lower.stop ≤ upper.begin)
    (hupper : upper.stop ≤ n) (fuel : ℕ) {i j : ℕ} (hi : i < lower.stop) (hj : upper.begin ≤ j)
    (hj' : j < upper.stop) (hfuel : lower.stop - 1 - i + (upper.stop - 1 - j) ≤ fuel)
    (hts : ∀ t ∈ ts, Triangle.Proper n t) :
    ∃ ts', stripWalk points lower upper fuel i j ts = .ok ts' ∧ ∀ t ∈ ts', Triangle.Proper n t := by
  induction fuel generalizing i j ts with
  | zero =>
    rw [stripWalk, if_neg (by omega)]
    exact ⟨ts, rfl, hts⟩
  | succ fuel ih =>
    -- a step along the lower row, and one along the upper row
    have hlower : i + 1 < lower.stop →
        ∃ ts', (addTriangle points ts i (i + 1) j >>= stripWalk points lower upper fuel (i + 1) j) = .ok ts' ∧
          ∀ t ∈ ts', Triangle.Proper n t := fun hlt =>
      exists_proper_bind (addTriangle_total hn ⟨by simp; omega, by simp; omega, by simp; omega, by simp,
        by simp; omega, by simp; omega⟩ hts) fun ts' hts' => ih hlt hj hj' (by omega) hts'
    have hupper' : j + 1 < upper.stop →
        ∃ ts', (addTriangle points ts i j (j + 1) >>= stripWalk points lower upper fuel i (j + 1)) = .ok ts' ∧
          ∀ t ∈ ts', Triangle.Proper n t := fun hlt =>
      exists_proper_bind (addTriangle_total hn ⟨by simp; omega, by simp; omega, by simp; omega,
        by simp; omega, by simp; omega, by simp⟩ hts) fun ts' hts' => ih hi (by omega) hlt (by omega) hts'
    rw [stripWalk]
    split_ifs with hgo hlast hlast'
    · exact hlower (by omega)
    · exact hupper' (by omega)
    · rw [readAt_of_lt (show i + 1 < points.length by omega), ok_bind,
        readAt_of_lt (show j + 1 < points.length by omega), ok_bind]
      split_ifs
      · exact hlower (by omega)
      · exact hupper' (by omega)
    · exact ⟨ts, rfl, hts⟩

/-- **All strips end**, with proper triangles of points of the layer. -/
theorem triangulate_total (hn : n ≤ points.length) {rows : List Row} (hrows : Covers 0 n rows) :
    ∃ ts, triangulate points rows = .ok ts ∧ ∀ t ∈ ts, Triangle.Proper n t := by
  have hpart : ∀ m, m ≤ rows.length - 1 → ∃ ts, (List.range m).foldlM (strip points rows) [] = .ok ts ∧
      ∀ t ∈ ts, Triangle.Proper n t := by
    intro m
    induction m with
    | zero => exact fun _ => ⟨[], rfl, nofun⟩
    | succ m ih =>
      intro hm
      have hl : m < rows.length := by omega
      have hu : m + 1 < rows.length := by omega
      obtain ⟨-, hlt, -, hnext⟩ := hrows.getElem hl
      obtain ⟨-, hlt', hle', -⟩ := hrows.getElem hu
      rw [List.range_succ, List.foldlM_append]
      refine exists_proper_bind (ih (by omega)) fun ts hts => ?_
      rw [List.foldlM_cons, strip, readAt_of_lt hl, ok_bind, readAt_of_lt hu, ok_bind]
      refine exists_proper_bind (stripWalk_total hn (hnext hu).ge hle' _ hlt le_rfl hlt' (by omega) hts)
        fun ts' hts' => ⟨ts', rfl, hts'⟩
  exact hpart _ le_rfl

/-! ## Layers -/

/-- A point has the height of its layer and stands over the point of the first layer. -/
def Over (points : List (CartesianPoint F)) (n layer k : ℕ) : Prop :=
  ∃ front reference current, points[layer * n]? = some front ∧ points[k]? = some reference ∧
    points[layer * n + k]? = some current ∧ approximatelyEqual current.z front.z ∧
    approximatelyEqual current.x reference.x ∧ approximatelyEqual current.y reference.y

theorem checkPoint_spec {offset k : ℕ} {z : F} (hk : offset + k < points.length)
    (hsize : points.length ≤ sizeMax) : Call.Ends (checkPoint points offset z k) fun _ =>
      ∃ reference current, points[k]? = some reference ∧ points[offset + k]? = some current ∧
        approximatelyEqual current.z z ∧ approximatelyEqual current.x reference.x ∧
        approximatelyEqual current.y reference.y := by
  have hk' : k < points.length := by omega
  rw [checkPoint, readAt_of_lt hk', ok_bind, wrap_of_le (by omega), readAt_of_lt hk, ok_bind]
  refine .ite fun h => ?_
  rw [not_or, not_or, not_not, not_not, not_not] at h
  exact ⟨_, _, List.getElem?_eq_getElem hk', List.getElem?_eq_getElem hk, h.1, h.2.1, h.2.2⟩

theorem layer_index_lt {layer layers k : ℕ} (hl : layer < layers) (hk : k < n) :
    layer * n + k < layers * n := by
  rw [Nat.mul_comm layers]
  exact mul_add_lt_mul hl hk

/-- **The layers** have been compared with the first one. -/
theorem checkLayers_spec {layers : ℕ} (hn : 0 < n) (hlen : points.length = layers * n)
    (hsize : points.length ≤ sizeMax) : Call.Ends (checkLayers points n layers) fun _ =>
      ∀ layer < layers, ∀ k < n, Over points n layer k := by
  have hidx : ∀ {layer k}, layer < layers → k < n → layer * n + k < points.length := fun hl hk =>
    hlen ▸ layer_index_lt hl hk
  have hlayer : ∀ layer ∈ List.range layers, Call.Ends (checkLayer points n layer) fun _ =>
      ∀ k < n, Over points n layer k := by
    intro layer hl
    have hl' := List.mem_range.mp hl
    have hfront := hidx hl' hn
    rw [Nat.add_zero] at hfront
    rw [checkLayer, wrap_of_le (by omega), readAt_of_lt hfront, ok_bind]
    refine (Call.Ends.foldlM_unit fun k hk => checkPoint_spec (hidx hl' (List.mem_range.mp hk)) hsize).imp
      fun _ h k hk => ?_
    obtain ⟨reference, current, hr, hc, heq⟩ := h k (List.mem_range.mpr hk)
    exact ⟨_, reference, current, List.getElem?_eq_getElem hfront, hr, hc, heq⟩
  exact (Call.Ends.foldlM_unit hlayer).imp fun _ h layer hl => h layer (List.mem_range.mpr hl)

/-! ## The whole input -/

/-- What the checks establish: `layers` layers of `n` points, each over the first one, the rows of the
first layer and the triangles of its strips. -/
structure Accepted (points : List (CartesianPoint F)) (n layers : ℕ) (rows : List Row)
    (ts : List Triangle) : Prop where
  length : points.length = layers * n
  n_pos : 0 < n
  two_layers : 2 ≤ layers
  /-- The first layer ends where the height changes. -/
  changes : ∃ front next, points[0]? = some front ∧ points[n]? = some next ∧
    ¬ approximatelyEqual next.z front.z
  stacked : ∀ layer < layers, ∀ k < n, Over points n layer k
  rows_eq : detectRows points n n 0 = .ok rows
  covers : Covers 0 n rows
  level : ∀ row ∈ rows, Level points n row
  two_rows : 2 ≤ rows.length
  triangles_eq : triangulate points rows = .ok ts
  proper : ∀ t ∈ ts, Triangle.Proper n t
  ts_ne : ts ≠ []
  size : ts.length * (layers - 1) * 7 ≤ sizeMax

/-- A triangle of a layer with the same one of the next layer. -/
def wedge (n layer : ℕ) (t : Triangle) : List ℕ :=
  [layer * n + t.1, layer * n + t.2.1, layer * n + t.2.2, (layer + 1) * n + t.1, (layer + 1) * n + t.2.1,
    (layer + 1) * n + t.2.2]

/-- The file of an accepted input. -/
def fileOf (field coordinates : List F) (n layers : ℕ) (ts : List Triangle) : VtkFile F where
  pointCount := layers * n
  points := (unflat coordinates).map toPoint
  cellCount := ts.length * (layers - 1)
  cellIntegers := ts.length * (layers - 1) * 7
  cells := (List.range (layers - 1)).flatMap fun layer => ts.map (wedge n layer)
  cellTypes := List.replicate (ts.length * (layers - 1)) 13
  vectorCount := layers * n
  vectors := List.zipWith toVector (unflat coordinates) (unflat field)

theorem layerCells_eq {layers layer : ℕ} (hl : layer + 1 < layers) (hsize : layers * n ≤ sizeMax)
    (hts : ∀ t ∈ ts, Triangle.Proper n t) : layerCells n ts layer = ts.map (wedge n layer) := by
  have hupper : ∀ k < n, (layer + 1) * n + k ≤ sizeMax := fun k hk =>
    (layer_index_lt hl hk).le.trans hsize
  have hlower : ∀ k < n, layer * n + k ≤ sizeMax := fun k hk =>
    (layer_index_lt (Nat.lt_of_succ_lt hl) hk).le.trans hsize
  refine List.map_congr_left fun t ht => ?_
  obtain ⟨h₁, h₂, h₃, -, -, -⟩ := hts t ht
  have hoffset : wrap (layer * n) = layer * n := wrap_of_le ((Nat.le_add_right _ _).trans (hlower _ h₁))
  have hnext : wrap (layer * n + n) = (layer + 1) * n := by
    rw [← Nat.succ_mul]
    exact wrap_of_le ((Nat.le_add_right _ _).trans (hupper _ h₁))
  rw [hoffset, hnext, wrap_of_le (hlower _ h₁), wrap_of_le (hlower _ h₂), wrap_of_le (hlower _ h₃),
    wrap_of_le (hupper _ h₁), wrap_of_le (hupper _ h₂), wrap_of_le (hupper _ h₃)]
  rfl

/-- **What an accepted input is**, and what is written for it. Whatever the input is, the checks end. -/
theorem buildFile_ends (field coordinates : List F) (path : String) (hc : coordinates.length < 2 ^ 60) :
    (buildFile field coordinates path).Ends fun file => ∃ n layers rows ts,
      Accepted ((unflat coordinates).map toPoint) n layers rows ts ∧ coordinates.length % 3 = 0 ∧
      field.length = coordinates.length ∧ file = fileOf field coordinates n layers ts := by
  unfold buildFile
  refine .ite fun hempty => .ite fun hmod => ?_
  obtain ⟨m, hm⟩ : ∃ m, coordinates.length = m * 3 := ⟨coordinates.length / 3, by
    have hdvd : coordinates.length % 3 = 0 := not_not.mp hmod
    omega⟩
  have hdiv : coordinates.length / kDimension = m := by
    rw [hm, kDimension, Nat.mul_div_cancel _ (by decide)]
  have hpos : 0 < m := by
    rw [List.isEmpty_iff, ← List.length_eq_zero_iff] at hempty
    omega
  have hlength : ((unflat coordinates).map toPoint).length = m := by rw [List.length_map, length_unflat hm]
  have hwrap : wrap (m * kDimension) = m * 3 := wrap_of_le (by unfold sizeMax kDimension; omega)
  dsimp only
  rw [hdiv, hwrap]
  refine .ite fun hfield => .ite fun hpath => ?_
  have hfield' : field.length = coordinates.length := (not_not.mp hfield).trans hm.symm
  generalize hpoints : (unflat coordinates).map toPoint = points at hlength
  have h0 : 0 < points.length := by omega
  obtain ⟨n, hn, hn1, hnle, -, hnext⟩ := layerEnd_spec (z := points[0].z) (show 1 ≤ points.length by omega)
  rw [readAt_of_lt h0, ok_bind, hn, ok_bind]
  refine .ite fun hcomplete => .ite fun htwo => ?_
  rw [not_or, not_not] at hcomplete
  have hlayers : points.length = m / n * n := by
    rw [hlength, Nat.div_mul_cancel (Nat.dvd_of_mod_eq_zero hcomplete.2)]
  have hsize : points.length ≤ sizeMax := by
    unfold sizeMax
    omega
  obtain ⟨rows, hrows, hcovers, hlevel⟩ := detectRows_spec (Nat.zero_le n) hnle
    (le_of_eq (Nat.sub_zero n))
  obtain ⟨ts, hts, hproper⟩ := triangulate_total hnle hcovers
  refine (checkLayers_spec hn1 hlayers hsize).bind fun _ hover => ?_
  rw [hrows, ok_bind]
  refine .ite fun hrows2 => ?_
  rw [hts, ok_bind]
  refine .ite fun hts0 => .ite fun hcells => .ite fun hintegers => ?_
  have hcells' : ts.length * (m / n - 1) ≤ sizeMax := by
    rwa [not_lt, Nat.le_div_iff_mul_le (by omega)] at hcells
  have hintegers' : ts.length * (m / n - 1) * 7 ≤ sizeMax := by
    rwa [wrap_of_le hcells', not_lt, Nat.le_div_iff_mul_le (by decide)] at hintegers
  refine ⟨n, m / n, rows, ts, ?_, not_not.mp hmod, hfield', ?_⟩
  · constructor
    case length => exact hlayers
    case n_pos => exact hn1
    case two_layers => exact not_lt.mp htwo
    case changes =>
      obtain ⟨next, hnext, hne⟩ := hnext (lt_of_le_of_ne hnle fun he => hcomplete.1 (he.trans hlength))
      exact ⟨_, next, List.getElem?_eq_getElem h0, hnext, hne⟩
    case stacked => exact hover
    case rows_eq => exact hrows
    case covers => exact hcovers
    case level => exact hlevel
    case two_rows => exact not_lt.mp hrows2
    case triangles_eq => exact hts
    case proper => exact hproper
    case ts_ne => simpa using hts0
    case size => exact hintegers'
  · have hcount : m = m / n * n := hlength.symm.trans hlayers
    have hflatMap : (List.range (m / n - 1)).flatMap (layerCells n ts) =
        (List.range (m / n - 1)).flatMap fun layer => ts.map (wedge n layer) := by
      refine List.flatMap_congr fun layer hl => ?_
      have hl' := List.mem_range.mp hl
      have hlayer : layer + 1 < m / n := by omega
      exact layerCells_eq hlayer (hlayers ▸ hsize) hproper
    rw [wrap_of_le hcells', wrap_of_le hintegers', hflatMap, fileOf, hpoints, ← hcount]

/-! ## The exported file -/

theorem wedge_spec {layers layer : ℕ} (hl : layer + 1 < layers) {t : Triangle} (ht : Triangle.Proper n t) :
    (wedge n layer t).Nodup ∧ ∀ i ∈ wedge n layer t, i < layers * n := by
  obtain ⟨h₁, h₂, h₃, h₁₂, h₁₃, h₂₃⟩ := ht
  have hnext : (layer + 1) * n = layer * n + n := Nat.succ_mul layer n
  have hle : (layer + 1) * n + n ≤ layers * n := by
    rw [← Nat.succ_mul]
    exact Nat.mul_le_mul_right n hl
  constructor
  · simp only [wedge, hnext, List.nodup_cons, List.mem_cons, List.not_mem_nil, or_false, List.nodup_nil,
      not_false_eq_true, and_true]
    omega
  · rw [hnext] at hle
    simp only [wedge, hnext, List.forall_mem_cons]
    refine ⟨by omega, by omega, by omega, by omega, by omega, by omega, nofun⟩

/-- The tokens of the file are read as this grid, with the announced counts those of the sections; and
the grid has the points of the input, layer by layer, a wedge for every triangle and every two
consecutive layers, and a type and a vector for each cell and each point. -/
structure WellFormed (field coordinates : List F) (file : VtkFile F) (grid : UnstructuredGrid F) : Prop where
  parse : Reader.parse readGrid file.tokens = some grid
  pointCount : file.pointCount = grid.points.length
  cellCount : file.cellCount = grid.cells.length
  cellIntegers : file.cellIntegers = grid.cells.length * 7
  points : grid.points = (unflat coordinates).map toPoint
  length : coordinates.length = grid.points.length * 3
  cells : ∃ n layers rows ts, Accepted grid.points n layers rows ts ∧
    grid.cells = (List.range (layers - 1)).flatMap fun layer => ts.map (wedge n layer)
  wedges : ∀ cell ∈ grid.cells, cell.length = 6 ∧ cell.Nodup ∧ ∀ i ∈ cell, i < grid.points.length
  cellTypes : grid.cellTypes = List.replicate grid.cells.length 13
  vectors : grid.vectors = List.zipWith toVector (unflat coordinates) (unflat field)
  attached : grid.vectors.length = grid.points.length

theorem length_cells (n layers : ℕ) (ts : List Triangle) :
    ((List.range (layers - 1)).flatMap fun layer => ts.map (wedge n layer)).length =
      ts.length * (layers - 1) := by
  simp [List.length_flatMap, Nat.mul_comm]

theorem consistent_fileOf {field coordinates : List F} {layers : ℕ}
    (hc : coordinates.length = layers * n * 3) (hf : field.length = coordinates.length) :
    (fileOf field coordinates n layers ts).Consistent where
  points := by
    show ((unflat coordinates).map toPoint).length = layers * n
    rw [List.length_map, length_unflat hc]
  cells := length_cells n layers ts
  integers := rfl
  six cell hcell := by
    obtain ⟨layer, -, hcell⟩ := List.mem_flatMap.mp hcell
    obtain ⟨t, -, rfl⟩ := List.mem_map.mp hcell
    rfl
  types := List.length_replicate
  vectors := by
    show (List.zipWith toVector (unflat coordinates) (unflat field)).length = layers * n
    rw [List.length_zipWith, length_unflat hc, length_unflat (hf.trans hc), min_self]
  attached := rfl

theorem wellFormed_fileOf {field coordinates : List F} {layers : ℕ} {rows : List Row}
    (h : Accepted ((unflat coordinates).map toPoint) n layers rows ts)
    (hc : coordinates.length % 3 = 0) (hf : field.length = coordinates.length) :
    ∃ grid, WellFormed field coordinates (fileOf field coordinates n layers ts) grid := by
  obtain ⟨m, hm⟩ : ∃ m, coordinates.length = m * 3 := ⟨coordinates.length / 3, by omega⟩
  have hlength := h.length
  rw [List.length_map, length_unflat hm] at hlength
  subst hlength
  have hconsistent : (fileOf field coordinates n layers ts).Consistent := consistent_fileOf hm hf
  refine ⟨_, hconsistent.parse_tokens, hconsistent.points.symm, hconsistent.cells.symm, ?_, rfl, ?_,
    ⟨n, layers, rows, ts, h, rfl⟩, fun cell hcell => ?_, ?_, rfl, ?_⟩
  · exact hconsistent.integers.trans (congrArg (· * 7) hconsistent.cells.symm)
  · exact hm.trans (congrArg (· * 3) hconsistent.points.symm)
  · refine ⟨hconsistent.six cell hcell, ?_⟩
    obtain ⟨layer, hl, hcell⟩ := List.mem_flatMap.mp hcell
    obtain ⟨t, ht, rfl⟩ := List.mem_map.mp hcell
    have hl' := List.mem_range.mp hl
    have hwedge := wedge_spec (show layer + 1 < layers by omega) (h.proper t ht)
    exact ⟨hwedge.1, fun i hi => (hwedge.2 i hi).trans_eq hconsistent.points.symm⟩
  · exact congrArg (List.replicate · 13) hconsistent.cells.symm
  · exact hconsistent.vectors.trans (hconsistent.attached.trans hconsistent.points.symm)

/-- What holds of every file that is built holds of every file that is exported. -/
theorem export3dFieldToVtk_ends {fs : FileSystem} {field coordinates : List F} {path : String}
    {P : VtkFile F → Prop} (h : (buildFile field coordinates path).Ends P) :
    (export3dFieldToVtk fs field coordinates path).Ends P := by
  unfold export3dFieldToVtk
  refine h.bind fun file hfile => ?_
  split
  · exact .unexpected _
  · exact .ite fun _ => .ite fun _ => hfile

end Vtk

end TPC
