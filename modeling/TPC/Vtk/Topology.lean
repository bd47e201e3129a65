import TPC.Vtk.Tiling

/-!
# What the exporter recovers

In exact arithmetic, from points that were stored layer by layer and row by row.

* `RowList`: rows of equal height, apart from each other, of points apart from each other;
  `RowList.orderedRows`: they are in order;
* `prism`, **`checkLayers_eq`**: layers over each other pass the check; `layerEnd_prism`;
* `Stores`: a buffer of such layers; `Stores.detectRows_eq`, `Stores.exists_triangles`: its rows are found
  and triangulated; `Stores.recoveredTopology_eq`, **`Stores.exists_buildFile`**: it passes every check;
* **`exported_wellFormed`**: every exported file is a well-formed grid.
-/

namespace TPC.Vtk

open Analytics Fold Segment
open Arith hiding max

/-! ## Rows -/

/-- Rows from bottom to top, each from left to right. -/
structure RowList (sx sy R : ℝ) (rows : List (List (CartesianPoint ℝ))) : Prop where
  nonempty : ∀ row ∈ rows, row ≠ []
  level : ∀ row ∈ rows, ∀ p ∈ row, ∀ q ∈ row, p.y = q.y
  spaced : ∀ row ∈ rows, row.Pairwise fun p q => p.x + sx ≤ q.x
  apart : rows.Pairwise fun row row' => ∀ p ∈ row, ∀ q ∈ row', p.y + sy ≤ q.y
  bounded : ∀ row ∈ rows, ∀ p ∈ row, |p.y| ≤ R

/-- **Rows that are stored are in order**, when their steps are larger than what counts as equal. -/
theorem RowList.orderedRows {sx sy R : ℝ} {rows : List (List (CartesianPoint ℝ))} (h : RowList sx sy R rows)
    (hsx : 0 < sx) (hsy : 64 * epsilon * max 1 R < sy) (harea : 64 * epsilon < sx * sy) : OrderedRows rows := by
  have hpos : 0 < sy := by
    have := epsilon_pos
    exact lt_of_le_of_lt (by positivity) hsy
  have hapart : ∀ (i : ℕ) (hi : i + 1 < rows.length), ∀ p ∈ rows[i], ∀ q ∈ rows[i + 1], p.y + sy ≤ q.y :=
    fun i hi => List.pairwise_iff_getElem.mp h.apart i (i + 1) _ hi (Nat.lt_succ_self i)
  constructor
  case nonempty => exact h.nonempty
  case level => exact h.level
  case increasing =>
    intro row hrow
    refine ((h.spaced row hrow).imp fun hpq => ?_).isChain
    linarith
  case upward =>
    refine List.isChain_iff_getElem.mpr fun i hi p hp q hq => ?_
    have hpq := hapart i hi p hp q hq
    refine ⟨by linarith, not_approximatelyEqual (h.bounded _ (List.getElem_mem _) q hq)
      (h.bounded _ (List.getElem_mem _) p hp) hsy (le_trans ?_ (le_abs_self _))⟩
    linarith
  case wide =>
    refine List.isChain_iff_getElem.mpr fun i hi row hrow => ?_
    have hmem : row ∈ rows := by
      simp only [List.mem_cons, List.not_mem_nil, or_false] at hrow
      rcases hrow with rfl | rfl <;> exact List.getElem_mem _
    refine ((h.spaced row hmem).imp fun {a b} hab p hp q hq => ?_).isChain
    have hpq := hapart i hi p hp q hq
    calc 64 * epsilon < sx * sy := harea
      _ ≤ (b.x - a.x) * (q.y - p.y) := mul_le_mul (by linarith) (by linarith) hpos.le (by linarith)

/-! ## Layers -/

/-- The point over `p` at height `z`. -/
def lift (z : ℝ) (p : ℝ × ℝ) : CartesianPoint ℝ := ⟨p.1, p.2, z⟩

/-- Copies of a layer at several heights. -/
def prism (zs : List ℝ) (ps : List (ℝ × ℝ)) : List (CartesianPoint ℝ) :=
  zs.flatMap fun z => ps.map (lift z)

variable {zs : List ℝ} {ps : List (ℝ × ℝ)}

theorem length_prism (zs : List ℝ) (ps : List (ℝ × ℝ)) :
    (prism zs ps).length = zs.length * ps.length := by
  rw [prism, List.length_flatMap]
  simp

theorem prism_getElem? {i k : ℕ} (hi : i < zs.length) (hk : k < ps.length) :
    (prism zs ps)[i * ps.length + k]? = some (lift zs[i] ps[k]) :=
  getElem?_flatMap_map lift zs ps hi hk

theorem prism_getElem?_first {k : ℕ} (hz : 0 < zs.length) (hk : k < ps.length) :
    (prism zs ps)[k]? = some (lift zs[0] ps[k]) := by
  have h := prism_getElem? hz hk
  rwa [Nat.zero_mul, Nat.zero_add] at h

theorem segment_prism (hz : 0 < zs.length) : Segment (prism zs ps) 0 (ps.map (lift zs[0])) := by
  intro k p hk
  have hlt : k < ps.length := by
    simpa using (List.getElem?_eq_some_iff.mp hk).1
  rw [Nat.zero_add, prism_getElem?_first hz hlt]
  rwa [List.getElem?_map, List.getElem?_eq_getElem hlt] at hk

theorem foldlM_unit {ε α : Type} {g : α → Except ε Unit} {l : List α} (h : ∀ a ∈ l, g a = .ok ()) :
    l.foldlM (fun _ => g) () = .ok () := by
  induction l with
  | nil => rfl
  | cons a l ih =>
    rw [List.foldlM_cons, h a List.mem_cons_self, ok_bind]
    exact ih fun a ha => h a (List.mem_cons_of_mem _ ha)

theorem checkPoint_eq {i k : ℕ} (hi : i < zs.length) (hk : k < ps.length)
    (hsize : (prism zs ps).length ≤ sizeMax) :
    checkPoint (prism zs ps) (i * ps.length) zs[i] k = .ok () := by
  have hidx : i * ps.length + k ≤ sizeMax := by
    refine le_trans (Nat.le_of_lt ?_) hsize
    exact (List.getElem?_eq_some_iff.mp (prism_getElem? hi hk)).1
  rw [checkPoint, readAt_eq_ok.mpr (prism_getElem?_first (Nat.zero_lt_of_lt hi) hk), ok_bind,
    wrap_of_le hidx, readAt_eq_ok.mpr (prism_getElem? hi hk), ok_bind, if_neg]
  · rfl
  · simp only [lift, not_or, not_not]
    exact ⟨approximatelyEqual_self _, approximatelyEqual_self _, approximatelyEqual_self _⟩

/-- **Layers over each other pass the check.** -/
theorem checkLayers_eq (hps : 0 < ps.length) (hsize : (prism zs ps).length ≤ sizeMax) :
    checkLayers (prism zs ps) ps.length zs.length = .ok () := by
  refine foldlM_unit fun i hi => ?_
  have hi' := List.mem_range.mp hi
  have hoffset : i * ps.length ≤ sizeMax := by
    rw [length_prism] at hsize
    exact (Nat.mul_le_mul_right _ hi'.le).trans hsize
  have hfront := prism_getElem? hi' hps
  rw [Nat.add_zero] at hfront
  rw [checkLayer, wrap_of_le hoffset, readAt_eq_ok.mpr hfront, ok_bind]
  exact foldlM_unit fun k hk => checkPoint_eq hi' (List.mem_range.mp hk) hsize

/-- The first layer ends where the height changes. -/
theorem layerEnd_prism {H sz : ℝ} (hz : 1 < zs.length) (hps : 0 < ps.length) (h₀ : |zs[0]| ≤ H)
    (h₁ : |zs[1]| ≤ H) (hsz : 64 * epsilon * max 1 H < sz) (hgap : sz ≤ |zs[1] - zs[0]|) :
    layerEnd (prism zs ps) zs[0] 1 = .ok ps.length := by
  have hnext := prism_getElem? hz hps
  rw [Nat.one_mul, Nat.add_zero] at hnext
  have hlt := (List.getElem?_eq_some_iff.mp hnext).1
  obtain ⟨e, he, hpos, -, hin, hout⟩ := layerEnd_spec (z := zs[0]) (Nat.one_le_iff_ne_zero.mpr hps.ne' |>.trans hlt.le)
  rw [he]
  rcases lt_trichotomy e ps.length with h | rfl | h
  · obtain ⟨p, hp, hne⟩ := hout (h.trans hlt)
    rw [prism_getElem?_first (Nat.lt_of_succ_lt hz) h] at hp
    cases hp
    exact absurd (approximatelyEqual_self _) hne
  · rfl
  · -- the scan does not go past the first point of the second layer
    obtain ⟨p, hp, heq⟩ := hin ps.length hps h
    rw [hnext] at hp
    cases hp
    exact absurd heq (not_approximatelyEqual h₁ h₀ hsz hgap)

/-! ## The file -/

/-- The number of layers and the rows that the exporter works with. -/
def recoveredTopology {F : Type} [Arith F] (coordinatesData : List F) : Call (ℕ × List Row) := do
  let points := (Fold.unflat coordinatesData).map toPoint
  let front ← readAt points 0
  let pointsPerLayer ← layerEnd points front.z 1
  let rows ← detectRows points pointsPerLayer pointsPerLayer 0
  return (coordinatesData.length / kDimension / pointsPerLayer, rows)

/-- The counts of a buffer of the given number of layers and points per layer do not overflow. -/
theorem counts_le {layers n t : ℕ} (hn : layers * n * 3 ≤ vectorMax) (ht : t ≤ 2 * n) :
    t * (layers - 1) * 7 ≤ sizeMax := by
  have hcells : t * (layers - 1) ≤ 2 * (layers * n) := by
    calc t * (layers - 1) ≤ 2 * n * layers := Nat.mul_le_mul ht (Nat.sub_le _ _)
      _ = 2 * (layers * n) := by ring
  unfold vectorMax at hn
  unfold sizeMax
  omega

section File

variable {H sz sx sy R : ℝ} {zs : List ℝ} {rows : List (List (ℝ × ℝ))} {cs : List (ℝ × ℝ × ℝ)}
  {field : List ℝ} {path : String}

/-- A coordinate buffer that holds layers over each other, each a list of rows. -/
structure Stores (H sz sx sy R : ℝ) (zs : List ℝ) (rows : List (List (ℝ × ℝ)))
    (cs : List (ℝ × ℝ × ℝ)) : Prop where
  points : cs.map toPoint = prism zs rows.flatten
  size : cs.length * 3 ≤ vectorMax
  layers : 2 ≤ zs.length
  height : ∀ z ∈ zs, |z| ≤ H
  gap : ∀ z₀ z₁, zs[0]? = some z₀ → zs[1]? = some z₁ → sz ≤ |z₁ - z₀|
  sz_large : 64 * epsilon * max 1 H < sz
  rowList : ∀ z, RowList sx sy R (rows.map (List.map (lift z)))
  sx_pos : 0 < sx
  sy_large : 64 * epsilon * max 1 R < sy
  area_large : 64 * epsilon < sx * sy
  two_rows : 2 ≤ rows.length
  two_points : ∃ row ∈ rows, 2 ≤ row.length

namespace Stores

variable (h : Stores H sz sx sy R zs rows cs)

include h

theorem flatten_pos : 0 < rows.flatten.length := by
  obtain ⟨row, hrow, hlen⟩ := h.two_points
  have := (List.sublist_flatten_of_mem hrow).length_le
  omega

theorem length_cs : cs.length = zs.length * rows.flatten.length := by
  rw [← length_prism, ← h.points, List.length_map]

theorem length_prism_le : (prism zs rows.flatten).length ≤ sizeMax := by
  have := h.size
  rw [length_prism, ← h.length_cs]
  unfold vectorMax at this
  unfold sizeMax
  omega

theorem layers_pos : 0 < zs.length := by
  have := h.layers
  omega

theorem front : (prism zs rows.flatten)[0]? =
    some (lift (zs.get ⟨0, h.layers_pos⟩) (rows.flatten.get ⟨0, h.flatten_pos⟩)) :=
  prism_getElem?_first h.layers_pos h.flatten_pos

theorem layerEnd_eq : layerEnd (prism zs rows.flatten) (zs.get ⟨0, h.layers_pos⟩) 1 =
    .ok rows.flatten.length := by
  have h₁ : 1 < zs.length := h.layers
  exact layerEnd_prism h₁ h.flatten_pos (h.height _ (List.getElem_mem _))
    (h.height _ (List.getElem_mem _)) h.sz_large
    (h.gap _ _ (List.getElem?_eq_getElem _) (List.getElem?_eq_getElem h₁))

theorem segment : Segment (prism zs rows.flatten) 0
    (rows.map (List.map (lift (zs.get ⟨0, h.layers_pos⟩)))).flatten := by
  rw [← List.map_flatten]
  exact segment_prism h.layers_pos

theorem orderedRows (z : ℝ) : OrderedRows (rows.map (List.map (lift z))) :=
  (h.rowList z).orderedRows h.sx_pos h.sy_large h.area_large

theorem detectRows_eq : detectRows (prism zs rows.flatten) rows.flatten.length rows.flatten.length 0 =
    .ok (ranges 0 rows) := by
  have hfound := (h.orderedRows _).detectRows_eq h.segment
  rwa [← List.map_flatten, List.length_map, ranges_map] at hfound

theorem exists_triangles : ∃ ts, triangulate (prism zs rows.flatten) (ranges 0 rows) = .ok ts ∧
    ts.length = (steps rows).sum := by
  rw [← ranges_map (lift (zs.get ⟨0, h.layers_pos⟩)), ← steps_map (lift (zs.get ⟨0, h.layers_pos⟩))]
  exact (h.orderedRows _).exists_triangles h.segment

theorem rows_nonempty : ∀ row ∈ rows, row ≠ [] := by
  intro row hrow he
  refine (h.rowList 0).nonempty _ (List.mem_map_of_mem hrow) ?_
  rw [he, List.map_nil]

theorem steps_pos : 1 ≤ (steps rows).sum := by
  obtain ⟨row, hrow, hlen⟩ := h.two_points
  exact one_le_sum_steps h.rows_nonempty h.two_rows hrow hlen

/-- **The layers and the rows that were stored are recovered.** -/
theorem recoveredTopology_eq : recoveredTopology (flat cs) = .ok (zs.length, ranges 0 rows) := by
  rw [recoveredTopology, unflat_flat, h.points, readAt_eq_ok.mpr h.front, ok_bind, lift,
    h.layerEnd_eq, ok_bind, h.detectRows_eq, ok_bind, length_flat, kDimension,
    Nat.mul_div_cancel _ (by decide), h.length_cs, Nat.mul_div_cancel _ h.flatten_pos]
  rfl

/-- **The buffer passes every check**, and there is a wedge for every step of every layer. -/
theorem exists_buildFile (hfield : field.length = (flat cs).length) (hpath : path ≠ "") :
    ∃ file, buildFile field (flat cs) path = .ok file ∧
      file.cellCount = (zs.length - 1) * (steps rows).sum ∧ file.cells.length = file.cellCount := by
  obtain ⟨ts, hts, htlen⟩ := h.exists_triangles
  have hsize := h.size
  have hlayers := h.layers
  have hpos := h.flatten_pos
  have hcs := h.length_cs
  have hn : (flat cs).length / kDimension = cs.length := by
    rw [length_flat, kDimension, Nat.mul_div_cancel _ (by decide)]
  have hwrap : wrap (cs.length * kDimension) = cs.length * 3 :=
    wrap_of_le (hsize.trans vectorMax_le_sizeMax)
  have hcounts : ts.length * (zs.length - 1) * 7 ≤ sizeMax := by
    refine counts_le (n := rows.flatten.length) (by rwa [← hcs]) ?_
    rw [htlen]
    exact sum_steps_le rows
  have hcells : ts.length * (zs.length - 1) ≤ sizeMax := by omega
  have hempty : (flat cs).isEmpty = false := by
    rw [List.isEmpty_eq_false_iff, ← List.length_pos_iff, length_flat, hcs]
    have := Nat.mul_pos h.layers_pos hpos
    omega
  have hne : ¬ (rows.flatten.length = cs.length ∨ cs.length % rows.flatten.length ≠ 0) := by
    rw [hcs, Nat.mul_mod_left, not_or, not_not]
    refine ⟨fun he => ?_, rfl⟩
    have : 2 * rows.flatten.length ≤ zs.length * rows.flatten.length := Nat.mul_le_mul_right _ hlayers
    omega
  have hlayerCount : cs.length / rows.flatten.length = zs.length := by
    rw [hcs, Nat.mul_div_cancel _ hpos]
  have htpos := h.steps_pos
  rw [buildFile, hempty, if_neg (by simp), if_neg (by simp [length_flat, kDimension])]
  dsimp only
  rw [hn, hwrap, if_neg (by simp [hfield, length_flat]), if_neg (by simpa using hpath), unflat_flat,
    h.points, readAt_eq_ok.mpr h.front, ok_bind, lift, h.layerEnd_eq, ok_bind, if_neg hne,
    hlayerCount, if_neg (by omega), checkLayers_eq hpos h.length_prism_le, ok_bind, h.detectRows_eq,
    ok_bind, if_neg (by rw [length_ranges]; have := h.two_rows; omega), hts, ok_bind,
    if_neg (by simp [← List.length_eq_zero_iff]; omega), if_neg, wrap_of_le hcells, if_neg]
  · refine ⟨_, rfl, ?_, ?_⟩
    · dsimp only
      rw [htlen, Nat.mul_comm]
    · dsimp only
      rw [List.length_flatMap]
      simp [layerCells, Nat.mul_comm]
  · rw [Nat.not_lt, Nat.le_div_iff_mul_le (by decide)]
    exact hcounts
  · rw [Nat.not_lt, Nat.le_div_iff_mul_le (by omega)]
    exact hcells

end Stores

end File

/-- Every file operation on the path succeeds. -/
structure FileSystem.Works (fs : FileSystem) (path : String) : Prop where
  creates : (fs.parentPath path).bind fs.createDirectories = none
  opens : fs.opens path = true
  writes : fs.writes path = true

/-- With the file operations out of the way, what is built is written. -/
theorem export3dFieldToVtk_of_works {F : Type} [Arith F] {fs : FileSystem} {field coordinates : List F}
    {path : String} {file : VtkFile F} (hw : fs.Works path)
    (h : buildFile field coordinates path = .ok file) :
    export3dFieldToVtk fs field coordinates path = .ok file := by
  rw [export3dFieldToVtk, h, ok_bind, hw.creates]
  dsimp only
  rw [if_neg (not_not.mpr hw.opens), if_neg (not_not.mpr hw.writes)]
  rfl

/-! ## The smallest mesh -/

/-- Two layers of a triangle with two points at `y = 0` and one at `y = 1`. -/
noncomputable def tent : List (ℝ × ℝ × ℝ) :=
  [(0, 0, 0), (1, 0, 0), (1, Real.pi / 2, 0), (0, 0, 1), (1, 0, 1), (1, Real.pi / 2, 1)]

def tentRows : List (List (ℝ × ℝ)) := [[(0, 0), (1, 0)], [(0, 1)]]

theorem stores_tent : Stores 1 1 1 1 1 [0, 1] tentRows tent := by
  have he : 64 * (Arith.epsilon : ℝ) < 1 := by rw [Arith.epsilon_real]; norm_num
  constructor
  case points => simp [tent, toPoint, prism, lift, tentRows, Arith.cos_real, Arith.sin_real]
  case size => simp [tent, vectorMax]
  case layers => simp
  case height => simp
  case gap =>
    intro z₀ z₁ h₀ h₁
    cases h₀
    cases h₁
    simp
  case sz_large => rwa [max_self, mul_one]
  case rowList =>
    intro z
    constructor
    all_goals simp [tentRows, lift]
  case sx_pos => exact one_pos
  case sy_large => rwa [max_self, mul_one]
  case area_large => rwa [mul_one]
  case two_rows => exact le_rfl
  case two_points => exact ⟨_, List.mem_cons_self, le_rfl⟩

/-- A file system in which nothing fails. -/
def workingFiles : FileSystem := ⟨fun _ => none, fun _ => none, fun _ => true, fun _ => true⟩

/-- **Every exported file is a well-formed grid.** Whatever the arrays are, the export ends without an
exception, and if it succeeds, what it has written is read back as a grid that is well formed. -/
theorem exported_wellFormed {F : Type} [Arith F] (fs : FileSystem) (field coordinates : List F) (path : String)
    (hc : coordinates.length < 2 ^ 60) : (export3dFieldToVtk fs field coordinates path).Ends
      fun file => ∃ grid, WellFormed field coordinates file grid := by
  refine export3dFieldToVtk_ends ((buildFile_ends field coordinates path hc).imp fun file h => ?_)
  obtain ⟨n, layers, rows, ts, haccepted, hmod, hf, rfl⟩ := h
  exact wellFormed_fileOf haccepted hmod hf

/-- `exported_wellFormed` for this mesh. -/
theorem exported_wellFormed_tent : ∃ file grid,
    export3dFieldToVtk workingFiles (List.replicate 18 0) (flat tent) "field.vtk" = .ok file ∧
      WellFormed (List.replicate 18 0) (flat tent) file grid := by
  have hfield : (List.replicate 18 (0 : ℝ)).length = (flat tent).length := rfl
  have hpath : "field.vtk" ≠ "" := by decide
  have hworks : workingFiles.Works "field.vtk" := ⟨rfl, rfl, rfl⟩
  obtain ⟨file, hfile, -, -⟩ := stores_tent.exists_buildFile hfield hpath
  have hexport := export3dFieldToVtk_of_works hworks hfile
  obtain ⟨grid, hgrid⟩ := (exported_wellFormed workingFiles (List.replicate 18 0) (flat tent) "field.vtk"
    (by simp [tent])).of_ok hexport
  exact ⟨file, grid, hexport, hgrid⟩

end TPC.Vtk
