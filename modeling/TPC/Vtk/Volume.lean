import TPC.Vtk.Solid

/-!
# What a mesh fills

A buffer that stores layers over each other, each a list of rows, is exported as a mesh that fills the
space between the first layer and the last one over the strips between adjacent rows.

* `stripHull`, `crossSection`: the figure between the rows; `stripArea`, `sectionArea`: its area;
* **`Tiled.fillsStrip`**: the triangles of a layer, strip by strip;
* `Lifted.iUnion_region`, `Lifted.sum_signedArea`: they cover that figure;
* `Stores.iUnion_wedges`, `Stores.sum_wedges`: the wedges fill the solid over it;
* `Stores.inOrder`, **`Stores.exists_mesh`**: and do not overlap.
-/

namespace TPC.Vtk

open Fold Segment Triangle
open Arith hiding max

variable {points : List (CartesianPoint ℝ)}

/-! ## The cross-section -/

/-- The convex hull of two rows. -/
def stripHull (lower upper : List (ℝ × ℝ)) : Set (ℝ × ℝ) := convexHull ℝ {p | p ∈ lower ∨ p ∈ upper}

/-- The strips between adjacent rows. Two rows of one point each have none. -/
def crossSection (rows : List (List (ℝ × ℝ))) : Set (ℝ × ℝ) :=
  {q | ∃ i lower upper, rows[i]? = some lower ∧ rows[i + 1]? = some upper ∧
    2 < lower.length + upper.length ∧ q ∈ stripHull lower upper}

/-- From the first point of a row to the last one. -/
def rowWidth (row : List (ℝ × ℝ)) : ℝ := (row.getD (row.length - 1) 0).1 - (row.getD 0 0).1

/-- The area of a trapezoid. -/
noncomputable def stripArea (lower upper : List (ℝ × ℝ)) : ℝ :=
  (rowWidth lower + rowWidth upper) / 2 * ((upper.getD 0 0).2 - (lower.getD 0 0).2)

noncomputable def sectionArea (rows : List (List (ℝ × ℝ))) : ℝ := (List.zipWith stripArea rows rows.tail).sum

theorem crossSection_subset {rows : List (List (ℝ × ℝ))} {s : Set (ℝ × ℝ)} (hs : Convex ℝ s)
    (h : ∀ row ∈ rows, ∀ p ∈ row, p ∈ s) : crossSection rows ⊆ s := by
  rintro q ⟨i, lower, upper, hl, hu, -, hq⟩
  refine convexHull_min ?_ hs hq
  rintro p (hp | hp)
  · exact h lower (List.mem_of_getElem? hl) p hp
  · exact h upper (List.mem_of_getElem? hu) p hp

/-! ## The triangles of a layer -/

section Layer

variable {z : ℝ} {row lower upper : List (ℝ × ℝ)}

theorem position_of_segment {b k : ℕ} (h : Segment points b (row.map (lift z))) (hk : k < row.length) :
    position points (b + k) = row.getD k 0 := by
  have hv := h.getElem? (by simpa using hk : k < (row.map (lift z)).length)
  rw [position, vertex_of_getElem? hv, List.getElem_map, List.getD_eq_getElem _ _ hk]
  rfl

/-- The points of a row in order are between its ends. -/
theorem mem_segment_row (hlevel : ∀ p ∈ row, ∀ q ∈ row, p.2 = q.2) (hchain : row.IsChain fun p q => p.1 < q.1)
    {p : ℝ × ℝ} (hp : p ∈ row) : p ∈ segment ℝ (row.getD 0 0) (row.getD (row.length - 1) 0) := by
  have htrans : row.Pairwise fun p q : ℝ × ℝ => p.1 < q.1 := List.isChain_iff_pairwise.mp hchain
  have hle : ∀ {i j : ℕ} (hi : i < row.length) (hj : j < row.length), i ≤ j → row[i].1 ≤ row[j].1 := by
    intro i j hi hj hij
    rcases Nat.eq_or_lt_of_le hij with rfl | hlt
    · exact le_rfl
    · exact (List.pairwise_iff_getElem.mp htrans i j hi hj hlt).le
  obtain ⟨k, hk, rfl⟩ := List.mem_iff_getElem.mp hp
  have h₀ : 0 < row.length := by omega
  have h₁ : row.length - 1 < row.length := by omega
  rw [List.getD_eq_getElem _ _ h₀, List.getD_eq_getElem _ _ h₁]
  have hx : row[k].1 ∈ segment ℝ row[0].1 row[row.length - 1].1 := by
    rw [segment_eq_Icc (hle h₀ h₁ (Nat.zero_le _))]
    exact ⟨hle h₀ hk (Nat.zero_le k), hle hk h₁ (by omega)⟩
  have hy₀ : row[0].2 = row[k].2 := hlevel _ (List.getElem_mem _) _ (List.getElem_mem _)
  have hy₁ : row[row.length - 1].2 = row[k].2 := hlevel _ (List.getElem_mem _) _ (List.getElem_mem _)
  have himage := Prod.image_mk_segment_left (𝕜 := ℝ) row[0].1 row[row.length - 1].1 row[k].2
  have hmem : row[k] ∈ Set.image (fun x => (x, row[k].2)) (segment ℝ row[0].1 row[row.length - 1].1) :=
    ⟨row[k].1, hx, rfl⟩
  rw [himage] at hmem
  convert hmem using 2
  · exact Prod.ext rfl hy₀
  · exact Prod.ext rfl hy₁

theorem stripHull_eq (hl : lower ≠ []) (hu : upper ≠ [])
    (hlevel : ∀ row ∈ [lower, upper], ∀ p ∈ row, ∀ q ∈ row, p.2 = q.2)
    (hchain : ∀ row ∈ [lower, upper], row.IsChain fun p q => p.1 < q.1) :
    stripHull lower upper = convexHull ℝ {lower.getD 0 0, lower.getD (lower.length - 1) 0, upper.getD 0 0,
      upper.getD (upper.length - 1) 0} := by
  have hpos := List.length_pos_iff.mpr hl
  have hpos' := List.length_pos_iff.mpr hu
  have hget : ∀ {row : List (ℝ × ℝ)} {k : ℕ}, k < row.length → row.getD k 0 ∈ row := fun hk => by
    rw [List.getD_eq_getElem _ _ hk]
    exact List.getElem_mem hk
  refine subset_antisymm (convexHull_min ?_ (convex_convexHull ℝ _)) (convexHull_mono ?_)
  · rintro p (hp | hp)
    · exact segment_subset_convexHull (by simp) (by simp)
        (mem_segment_row (hlevel lower (by simp)) (hchain lower (by simp)) hp)
    · exact segment_subset_convexHull (by simp) (by simp)
        (mem_segment_row (hlevel upper (by simp)) (hchain upper (by simp)) hp)
  · rintro p (rfl | rfl | rfl | rfl)
    · exact .inl (hget hpos)
    · exact .inl (hget (by omega))
    · exact .inr (hget hpos')
    · exact .inr (hget (by omega))

variable {b : ℕ} {ts : List Triangle}

/-- A tiled strip, in terms of the points of its rows. -/
structure FillsStrip (points : List (CartesianPoint ℝ)) (lower upper : List (ℝ × ℝ)) (ts : List Triangle) : Prop where
  region : ⋃ t ∈ ts, t.region points = {q | 2 < lower.length + upper.length ∧ q ∈ stripHull lower upper}
  area : (ts.map fun t => t.signedArea points / 2).sum = stripArea lower upper

theorem Tiled.fillsStrip (h : Tiled points ⟨b, b + lower.length⟩ ⟨b + lower.length, b + lower.length + upper.length⟩ ts)
    (hls : Segment points b (lower.map (lift z))) (hus : Segment points (b + lower.length) (upper.map (lift z)))
    (hl : lower ≠ []) (hu : upper ≠ [])
    (hlevel : ∀ row ∈ [lower, upper], ∀ p ∈ row, ∀ q ∈ row, p.2 = q.2)
    (hchain : ∀ row ∈ [lower, upper], row.IsChain fun p q => p.1 < q.1) : FillsStrip points lower upper ts := by
  have hpos := List.length_pos_iff.mpr hl
  have hpos' := List.length_pos_iff.mpr hu
  have hlength := h.length
  have h₀ : position points b = lower.getD 0 0 := position_of_segment hls hpos
  have h₁ : position points (b + lower.length - 1) = lower.getD (lower.length - 1) 0 := by
    rw [Nat.add_sub_assoc hpos]
    exact position_of_segment hls (by omega)
  have h₀' : position points (b + lower.length) = upper.getD 0 0 := position_of_segment hus hpos'
  have h₁' : position points (b + lower.length + upper.length - 1) = upper.getD (upper.length - 1) 0 := by
    rw [Nat.add_sub_assoc hpos']
    exact position_of_segment hus (by omega)
  constructor
  · by_cases hlt : 2 < lower.length + upper.length
    · have hne : ts ≠ [] := by
        rw [← List.length_pos_iff, hlength]
        dsimp only
        omega
      have hcovered := h.covered hne
      dsimp only at hcovered
      rw [h₀, h₁, h₀', h₁', ← stripHull_eq hl hu hlevel hchain] at hcovered
      rw [hcovered]
      ext q
      simp [hlt]
    · have hnil : ts = [] := by
        rw [← List.length_eq_zero_iff, hlength]
        dsimp only
        omega
      simp [hnil, hlt]
  · rw [h.area, stripArea, rowWidth, rowWidth, ← h₀, ← h₁, ← h₀', ← h₁']
    rfl

/-- The rows of a layer, stored at the height `z`. -/
structure Lifted (points : List (CartesianPoint ℝ)) (z : ℝ) (rows : List (List (ℝ × ℝ))) : Prop where
  ordered : OrderedRows (rows.map (List.map (lift z)))
  stored : Segment points 0 (rows.map (List.map (lift z))).flatten

namespace Lifted

variable {rows : List (List (ℝ × ℝ))} (h : Lifted points z rows)

include h

theorem exists_strips : ∃ g : ℕ → List Triangle,
    triangulate points (ranges 0 rows) = .ok ((List.range (rows.length - 1)).map g).flatten ∧
    ∀ (i : ℕ) (lower upper : List (ℝ × ℝ)), rows[i]? = some lower → rows[i + 1]? = some upper →
      FillsStrip points lower upper (g i) := by
  obtain ⟨g, hg, hstrips⟩ := h.ordered.exists_strips h.stored
  rw [ranges_map, List.length_map] at hg
  refine ⟨g, hg, fun i lower upper hl hu => ?_⟩
  have hmem : ∀ row ∈ [lower, upper], row.map (lift z) ∈ rows.map (List.map (lift z)) := by
    intro row hrow
    simp only [List.mem_cons, List.not_mem_nil, or_false] at hrow
    rcases hrow with rfl | rfl
    · exact List.mem_map_of_mem (List.mem_of_getElem? hl)
    · exact List.mem_map_of_mem (List.mem_of_getElem? hu)
  have hi : i + 1 < (rows.map (List.map (lift z))).length := by
    rw [List.length_map]
    exact (List.getElem?_eq_some_iff.mp hu).1
  obtain ⟨b, -, -, hls, hus, ht⟩ := hstrips i hi (lower.map (lift z)) (upper.map (lift z))
    (by rw [List.getElem?_map, hl]; rfl) (by rw [List.getElem?_map, hu]; rfl)
  rw [List.length_map] at hus ht
  rw [List.length_map] at ht
  refine ht.fillsStrip hls hus ?_ ?_ (fun row hrow p hp q hq => ?_) fun row hrow => ?_
  · exact fun he => h.ordered.nonempty _ (hmem lower (by simp)) (by rw [he]; rfl)
  · exact fun he => h.ordered.nonempty _ (hmem upper (by simp)) (by rw [he]; rfl)
  · exact h.ordered.level _ (hmem row hrow) _ (List.mem_map_of_mem hp) _ (List.mem_map_of_mem hq)
  · exact (List.isChain_map (lift z)).mp (h.ordered.increasing _ (hmem row hrow))

/-- **The triangles of a layer cover its cross-section.** -/
theorem iUnion_region (hts : triangulate points (ranges 0 rows) = .ok ts) :
    ⋃ t ∈ ts, t.region points = crossSection rows := by
  obtain ⟨g, hg, hstrips⟩ := h.exists_strips
  rw [hts] at hg
  cases hg
  ext q
  simp only [Set.mem_iUnion, List.mem_flatten, List.mem_map, List.mem_range, exists_prop]
  have hstrip : ∀ {i lower upper}, rows[i]? = some lower → rows[i + 1]? = some upper →
      ((∃ t ∈ g i, q ∈ t.region points) ↔ 2 < lower.length + upper.length ∧ q ∈ stripHull lower upper) := by
    intro i lower upper hl hu
    have hregion := (hstrips i lower upper hl hu).region
    rw [Set.ext_iff] at hregion
    simpa using hregion q
  constructor
  · rintro ⟨t, ⟨l, ⟨i, hi, rfl⟩, ht⟩, hq⟩
    have hl : rows[i]? = some rows[i] := List.getElem?_eq_getElem (by omega)
    have hu : rows[i + 1]? = some rows[i + 1] := List.getElem?_eq_getElem (by omega)
    exact ⟨i, _, _, hl, hu, (hstrip hl hu).mp ⟨t, ht, hq⟩⟩
  · rintro ⟨i, lower, upper, hl, hu, hq⟩
    obtain ⟨t, ht, hq⟩ := (hstrip hl hu).mpr hq
    have hi := (List.getElem?_eq_some_iff.mp hu).1
    exact ⟨t, ⟨g i, ⟨i, by omega, rfl⟩, ht⟩, hq⟩

/-- **Their areas add up to its area.** -/
theorem sum_signedArea (hts : triangulate points (ranges 0 rows) = .ok ts) :
    (ts.map fun t => t.signedArea points / 2).sum = sectionArea rows := by
  obtain ⟨g, hg, hstrips⟩ := h.exists_strips
  rw [hts] at hg
  cases hg
  rw [List.map_flatten, List.sum_flatten, List.map_map, List.map_map, sectionArea]
  congr 1
  refine List.ext_getElem (by simp) fun i hi hi' => ?_
  rw [List.getElem_map, List.getElem_range, List.getElem_zipWith, List.getElem_tail]
  simp only [List.length_map, List.length_range] at hi
  exact (hstrips i _ _ (List.getElem?_eq_getElem (by omega)) (List.getElem?_eq_getElem (by omega))).area

theorem ordered_ranges : (ranges 0 rows).IsChain (Ordered points) := by
  rw [← ranges_map (lift z)]
  refine List.isChain_iff_getElem.mpr fun i hi => ?_
  rw [length_ranges] at hi
  obtain ⟨b, hb, hb', hls, hus⟩ := exists_ranges h.stored (List.getElem?_eq_getElem (Nat.lt_of_succ_lt hi))
    (List.getElem?_eq_getElem hi)
  have ho := (h.ordered.ordered (List.getElem?_eq_getElem (Nat.lt_of_succ_lt hi)) (List.getElem?_eq_getElem hi)
    hls hus).1
  rwa [(List.getElem?_eq_some_iff.mp hb).2, (List.getElem?_eq_some_iff.mp hb').2]

end Lifted

end Layer

/-! ## The wedges -/

/-- A valid mesh that fills the space over the cross-section of the rows from `z₀` to `z₁`. -/
structure Fills (points : List (CartesianPoint ℝ)) (cells : List (List ℕ)) (rows : List (List (ℝ × ℝ)))
    (z₀ z₁ : ℝ) : Prop where
  valid : ValidMesh points cells
  solid : ⋃ cell ∈ cells, solid points cell = crossSection rows ×ˢ Set.Icc z₀ z₁
  volume : (cells.map (signedVolume points)).sum = sectionArea rows * (z₁ - z₀)

namespace Stores

variable {H sz sx sy R : ℝ} {zs : List ℝ} {rows : List (List (ℝ × ℝ))} {cs : List (ℝ × ℝ × ℝ)}
  (h : Stores H sz sx sy R zs rows cs) {n layers : ℕ} {found : List Row} {ts : List Triangle}

include h

theorem lifted : Lifted (prism zs rows.flatten) (zs.get ⟨0, h.layers_pos⟩) rows :=
  ⟨h.orderedRows _, h.segment⟩

/-- The layers and the rows that the exporter finds are those that were stored. -/
theorem eq_of_accepted (ha : Accepted (prism zs rows.flatten) n layers found ts) :
    n = rows.flatten.length ∧ layers = zs.length ∧ found = ranges 0 rows := by
  have hpos := h.flatten_pos
  have h₁ : 1 < zs.length := h.layers
  have hfront := h.front
  obtain ⟨front, next, hf, hnext, hchange⟩ := ha.changes
  rw [hfront] at hf
  cases hf
  have hn : n = rows.flatten.length := by
    rcases lt_trichotomy n rows.flatten.length with hlt | heq | hgt
    · -- a point of the first layer has its height
      rw [prism_getElem?_first h.layers_pos hlt] at hnext
      cases hnext
      exact absurd (approximatelyEqual_self _) hchange
    · exact heq
    · -- the first point of the second layer has not
      obtain ⟨front', -, current, hf', -, hcurrent, hz, -⟩ := ha.stacked 0 (by have := ha.two_layers; omega) _ hgt
      rw [Nat.zero_mul] at hf' hcurrent
      rw [hfront] at hf'
      cases hf'
      have hsecond := prism_getElem? h₁ hpos
      rw [Nat.one_mul, Nat.add_zero] at hsecond
      rw [Nat.zero_add, hsecond] at hcurrent
      cases hcurrent
      refine absurd hz (not_approximatelyEqual (h.height _ (List.getElem_mem h₁))
        (h.height _ (List.getElem_mem _)) h.sz_large ?_)
      exact h.gap _ _ (List.getElem?_eq_getElem h.layers_pos) (List.getElem?_eq_getElem h₁)
  subst hn
  refine ⟨rfl, ?_, ?_⟩
  · have hlength := ha.length
    rw [length_prism] at hlength
    exact (Nat.eq_of_mul_eq_mul_right hpos hlength).symm
  · exact Except.ok.inj (ha.rows_eq.symm.trans h.detectRows_eq)

theorem sum_wedges (hts : ∀ t ∈ ts, t.Proper rows.flatten.length) :
    (((List.range (zs.length - 1)).flatMap fun layer => ts.map (wedge rows.flatten.length layer)).map
      (signedVolume (prism zs rows.flatten))).sum =
        (ts.map fun t => t.signedArea (prism zs rows.flatten) / 2).sum *
          (zs.getD (zs.length - 1) 0 - zs.getD 0 0) := by
  have hlayer : ∀ layer ∈ List.range (zs.length - 1),
      ((ts.map (wedge rows.flatten.length layer)).map (signedVolume (prism zs rows.flatten))).sum =
        (ts.map fun t => t.signedArea (prism zs rows.flatten) / 2).sum * zs.getD (layer + 1) 0 -
          (ts.map fun t => t.signedArea (prism zs rows.flatten) / 2).sum * zs.getD layer 0 := by
    intro layer hl
    have hl' : layer + 1 < zs.length := by
      have := List.mem_range.mp hl
      omega
    rw [List.map_map, ← mul_sub, ← List.sum_map_mul_right]
    refine congrArg List.sum (List.map_congr_left fun t ht => ?_)
    rw [Function.comp_apply, copies_prism.signedVolume_wedge hl' (hts t ht), height_prism hl' h.flatten_pos,
      height_prism (Nat.lt_of_succ_lt hl') h.flatten_pos, List.getD_eq_getElem _ _ hl',
      List.getD_eq_getElem _ _ (Nat.lt_of_succ_lt hl')]
  rw [List.map_flatMap, List.flatMap_def, List.sum_flatten, List.map_map]
  refine (congrArg List.sum (List.map_congr_left hlayer)).trans ?_
  rw [sum_differences fun layer => (ts.map fun t => t.signedArea (prism zs rows.flatten) / 2).sum *
    zs.getD layer 0, mul_sub]

/-- The wedges over a layer, one interval after the other. -/
theorem iUnion_wedges (hup : zs.Pairwise (· < ·)) (hts : ∀ t ∈ ts, t.Proper rows.flatten.length) :
    ⋃ cell ∈ (List.range (zs.length - 1)).flatMap fun layer => ts.map (wedge rows.flatten.length layer),
      solid (prism zs rows.flatten) cell =
        (⋃ t ∈ ts, t.region (prism zs rows.flatten)) ×ˢ Set.Icc (zs.getD 0 0) (zs.getD (zs.length - 1) 0) := by
  have hlen := h.layers
  have hlt : ∀ {layer : ℕ}, layer + 1 < zs.length → zs.getD layer 0 < zs.getD (layer + 1) 0 := by
    intro layer hl
    rw [List.getD_eq_getElem _ _ hl, List.getD_eq_getElem _ _ (Nat.lt_of_succ_lt hl)]
    exact List.pairwise_iff_getElem.mp hup layer (layer + 1) _ hl (Nat.lt_succ_self layer)
  have hmono : MonotoneOn (fun layer => zs.getD layer 0) (Set.Iic (zs.length - 1)) := by
    refine monotoneOn_of_le_add_one Set.ordConnected_Iic fun layer _ _ hl => (hlt ?_).le
    have := Set.mem_Iic.mp hl
    omega
  have hsolid : ∀ {layer : ℕ}, layer + 1 < zs.length → ∀ t ∈ ts,
      solid (prism zs rows.flatten) (wedge rows.flatten.length layer t) =
        t.region (prism zs rows.flatten) ×ˢ Set.Icc (zs.getD layer 0) (zs.getD (layer + 1) 0) := by
    intro layer hl t ht
    have hl' := Nat.lt_of_succ_lt hl
    rw [copies_prism.solid_wedge hl (hts t ht), height_prism hl h.flatten_pos, height_prism hl' h.flatten_pos,
      convexHull_pair, ← List.getD_eq_getElem _ 0 hl, ← List.getD_eq_getElem _ 0 hl', segment_eq_Icc (hlt hl).le]
  rw [← Sweep.iUnion_Icc hmono (by omega)]
  ext q
  simp only [Set.mem_iUnion, List.mem_flatMap, List.mem_map, List.mem_range, Set.mem_prod, exists_prop]
  constructor
  · rintro ⟨cell, ⟨layer, hl, t, ht, rfl⟩, hq⟩
    rw [hsolid (by omega) t ht] at hq
    exact ⟨⟨t, ht, hq.1⟩, layer, hl, hq.2⟩
  · rintro ⟨⟨t, ht, hq⟩, layer, hl, hq'⟩
    refine ⟨_, ⟨layer, hl, t, ht, rfl⟩, ?_⟩
    rw [hsolid (by omega) t ht]
    exact ⟨hq, hq'⟩

theorem inOrder (hup : zs.Pairwise (· < ·)) :
    InOrder (prism zs rows.flatten) rows.flatten.length zs.length (ranges 0 rows) := by
  have hpairs := h.lifted.ordered_ranges
  have htwo : 2 ≤ (ranges 0 rows).length := by
    rw [length_ranges]
    exact h.two_rows
  constructor
  case level => exact (forall_mem_of_isChain htwo hpairs fun _ _ ho => ⟨ho.lower_level, ho.upper_level⟩)
  case increasing =>
    exact (forall_mem_of_isChain htwo hpairs fun _ _ ho => ⟨ho.lower_increasing, ho.upper_increasing⟩)
  case vertical => exact .inl (hpairs.imp fun _ _ ho => ho.upward)
  case copies => exact copies_prism
  case monotone =>
    refine .inl fun layer hl => ?_
    rw [height_prism hl h.flatten_pos, height_prism (Nat.lt_of_succ_lt hl) h.flatten_pos]
    exact List.pairwise_iff_getElem.mp hup layer (layer + 1) _ hl (Nat.lt_succ_self layer)

/-- **A buffer of layers is exported as a valid mesh that fills the solid over its cross-section.** -/
theorem exists_mesh (hup : zs.Pairwise (· < ·)) {field : List ℝ} (hfield : field.length = (flat cs).length)
    {path : String} (hpath : path ≠ "") : ∃ file grid, buildFile field (flat cs) path = .ok file ∧
      WellFormed field (flat cs) file grid ∧ grid.points = prism zs rows.flatten ∧
      Fills grid.points grid.cells rows (zs.getD 0 0) (zs.getD (zs.length - 1) 0) := by
  obtain ⟨file, hfile, -, -⟩ := h.exists_buildFile hfield hpath
  have hsize : (flat cs).length < 2 ^ 60 := by
    have := h.size
    rw [length_flat]
    unfold vectorMax at this
    omega
  have hends := buildFile_ends field (flat cs) path hsize
  rw [hfile] at hends
  obtain ⟨_, _, _, _, haccepted, hmod, hf, rfl⟩ := hends
  obtain ⟨grid, hgrid⟩ := wellFormed_fileOf haccepted hmod hf
  have hpoints : grid.points = prism zs rows.flatten := by rw [hgrid.points, unflat_flat, h.points]
  obtain ⟨n, layers, found, ts, ha, hcells⟩ := hgrid.cells
  refine ⟨_, grid, hfile, hgrid, hpoints, ?_⟩
  rw [hcells]
  rw [hpoints] at ha ⊢
  obtain ⟨rfl, rfl, rfl⟩ := h.eq_of_accepted ha
  have hts := ha.triangles_eq
  constructor
  case valid => exact (h.inOrder hup).validMesh ha
  case solid => rw [h.iUnion_wedges hup ha.proper, h.lifted.iUnion_region hts]
  case volume => rw [h.sum_wedges ha.proper, h.lifted.sum_signedArea hts]

end Stores

end TPC.Vtk
