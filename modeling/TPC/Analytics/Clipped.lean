import TPC.Analytics.Topology

/-!
# The generated grid is the clipped lattice

In exact arithmetic:

* `latticePoint`, `InDisc`; `mem_latticeRow_iff`, `mirror_mem_latticeRow`: what a row consists of;
* `latticeRow_isChain`: its points are exactly one step apart;
* `ClippedLattice`, `clippedLattice_generated`: the rows of a layer;
* `Generates`, **`exists_generates`**: what the generator visits and stores.
-/

namespace TPC.Analytics

open Fold Segment Vtk
open Arith hiding max

section Rows

variable {g : Fin 3 → ℕ} {radius : ℝ}

/-- Point `k` of row `j` of the staggered lattice. -/
noncomputable def latticePoint (g : Fin 3 → ℕ) (radius : ℝ) (j k : ℕ) : ℝ × ℝ :=
  (-radius + (j % 2 : ℕ) * (stepX g radius / 2) + k * stepX g radius, -radius + j * stepY g radius)

def InDisc (radius : ℝ) (p : ℝ × ℝ) : Prop := p.1 ^ 2 + p.2 ^ 2 ≤ radius ^ 2

theorem latticePoint_eq (j k : ℕ) : latticePoint g radius j k = (rowX g radius j k, rowY g radius j) := by
  rw [latticePoint, rowX, rowY]
  rcases Nat.mod_two_eq_zero_or_one j with h | h
  · rw [h, if_pos rfl]
    norm_num
  · rw [h, if_neg one_ne_zero]
    norm_num
    ring

theorem InDisc.abs_fst_le {p : ℝ × ℝ} (h : InDisc radius p) (hr : 0 ≤ radius) : |p.1| ≤ radius := by
  refine abs_le_of_sq_le_sq ?_ hr
  unfold InDisc at h
  have := sq_nonneg p.2
  linarith

theorem InDisc.abs_snd_le {p : ℝ × ℝ} (h : InDisc radius p) (hr : 0 ≤ radius) : |p.2| ≤ radius := by
  refine abs_le_of_sq_le_sq ?_ hr
  unfold InDisc at h
  have := sq_nonneg p.1
  linarith

theorem InDisc.mirror {p : ℝ × ℝ} (h : InDisc radius p) : InDisc radius (-p.1, p.2) := by
  unfold InDisc at h ⊢
  rwa [neg_sq]

/-- **The points of a row** are those of the lattice that lie in the disc. -/
theorem mem_latticeRow_iff (hx : 0 < stepX g radius) (hr : 0 ≤ radius) {j cols : ℕ}
    (hc : ∀ k : ℕ, k < cols ↔ rowX g radius j k ≤ radius + stepX g radius * 0.5) {p : ℝ × ℝ} :
    p ∈ latticeRow g radius j cols ↔ ∃ k, p = latticePoint g radius j k ∧ InDisc radius p := by
  rw [mem_latticeRow]
  simp only [latticePoint_eq, InDisc, sq]
  constructor
  · rintro ⟨k, -, hp, hdisc⟩
    exact ⟨k, hp, hdisc⟩
  · rintro ⟨k, hp, hdisc⟩
    refine ⟨k, (hc k).mpr ?_, hp, hdisc⟩
    have hdisc' : InDisc radius p := by
      unfold InDisc
      rwa [sq, sq, sq]
    have habs := (abs_le.mp (hdisc'.abs_fst_le hr)).2
    rw [hp] at habs
    dsimp only at habs
    linarith

theorem mirror_latticePoint (hg₀ : 2 ≤ g 0) (hr : 0 < radius) {j k : ℕ}
    (h : (latticePoint g radius j k).1 ≤ radius) :
    ∃ k', latticePoint g radius j k' = (-(latticePoint g radius j k).1, (latticePoint g radius j k).2) := by
  have hx := stepX_pos hg₀ hr
  have hradius : radius = ((g 0 - 1 : ℕ) : ℝ) * stepX g radius := by
    have h₁ : ((g 0 - 1 : ℕ) : ℝ) ≠ 0 := by exact_mod_cast (by omega : g 0 - 1 ≠ 0)
    rw [stepX, mul_div_cancel₀ _ h₁]
  generalize hm : g 0 - 1 = m at hradius
  have ha : j % 2 < 2 := Nat.mod_lt j two_pos
  generalize hj : j % 2 = a at ha
  have hle : 2 * k + a ≤ 4 * m := by
    have h' : (a : ℝ) * (stepX g radius / 2) + k * stepX g radius ≤ 2 * (m * stepX g radius) := by
      simp only [latticePoint, hj] at h
      linarith
    have h'' : ((2 * k + a : ℕ) : ℝ) * stepX g radius ≤ ((4 * m : ℕ) : ℝ) * stepX g radius := by
      push_cast
      linarith
    exact_mod_cast le_of_mul_le_mul_right h'' hx
  have hk : k + a ≤ 2 * m := by omega
  refine ⟨2 * m - a - k, ?_⟩
  have hcast : ((2 * m - a - k : ℕ) : ℝ) = 2 * m - a - k := by
    rw [Nat.sub_sub, Nat.cast_sub (by omega)]
    push_cast
    ring
  simp only [latticePoint, hj, hcast]
  refine Prod.ext ?_ rfl
  dsimp only
  linear_combination (-2 : ℝ) * hradius

/-- **A row is symmetric.** -/
theorem mirror_mem_latticeRow (hg₀ : 2 ≤ g 0) (hr : 0 < radius) {j cols : ℕ}
    (hc : ∀ k : ℕ, k < cols ↔ rowX g radius j k ≤ radius + stepX g radius * 0.5) {p : ℝ × ℝ}
    (hp : p ∈ latticeRow g radius j cols) : (-p.1, p.2) ∈ latticeRow g radius j cols := by
  have hx := stepX_pos hg₀ hr
  rw [mem_latticeRow_iff hx hr.le hc] at hp ⊢
  obtain ⟨k, rfl, hdisc⟩ := hp
  obtain ⟨k', hk'⟩ := mirror_latticePoint hg₀ hr ((le_abs_self _).trans (hdisc.abs_fst_le hr.le))
  exact ⟨k', hk'.symm, hdisc.mirror⟩

/-- **The points of a row are one step apart**: the disc takes none out of the middle. -/
theorem latticeRow_isChain (hx : 0 < stepX g radius) (j cols : ℕ) :
    (latticeRow g radius j cols).IsChain fun p q => q.1 = p.1 + stepX g radius := by
  rw [latticeRow, List.filter_map, List.map_map, List.isChain_map]
  refine (isChain_succ_of_convex (List.pairwise_lt_range.filter _) ?_).imp fun a b hab => ?_
  · intro a ha b hb k hak hkb
    simp only [List.mem_filter, List.mem_range, Function.comp_apply, decide_eq_true_eq] at ha hb ⊢
    refine ⟨hkb.trans hb.1, ?_⟩
    have hlow : rowX g radius j a ≤ rowX g radius j k := by
      have := add_le_rowX hx.le j hak
      linarith
    have hhigh : rowX g radius j k ≤ rowX g radius j b := by
      have := add_le_rowX hx.le j hkb
      linarith
    -- between two abscissas there is no larger square
    rcases le_total 0 (rowX g radius j k) with h₀ | h₀
    · have := mul_self_le_mul_self h₀ hhigh
      linarith [hb.2]
    · have := mul_self_le_mul_self (neg_nonneg.mpr h₀) (neg_le_neg hlow)
      rw [neg_mul_neg, neg_mul_neg] at this
      linarith [ha.2]
  · subst hab
    simp only [Function.comp_apply]
    have hadd : rowX g radius j (a + 1) = rowX g radius j a + (1 : ℕ) * stepX g radius := rowX_add j a 1
    rw [hadd]
    norm_num

/-- The rows of a layer are the rows of the lattice, clipped by the disc. -/
structure ClippedLattice (g : Fin 3 → ℕ) (radius : ℝ) (rows : List (List (ℝ × ℝ))) : Prop where
  /-- Row `j` has the points of row `j` of the lattice that lie in the disc, -/
  mem_row : ∀ j row, rows[j]? = some row → ∀ p, p ∈ row ↔ ∃ k, p = latticePoint g radius j k ∧ InDisc radius p
  /-- and no row with such a point is missing. -/
  complete : ∀ j k, InDisc radius (latticePoint g radius j k) → j < rows.length
  increasing : ∀ row ∈ rows, row.Pairwise fun p q => p.1 < q.1
  spaced : ∀ row ∈ rows, row.IsChain fun p q => q.1 = p.1 + stepX g radius
  symmetric : ∀ row ∈ rows, ∀ p ∈ row, (-p.1, p.2) ∈ row

namespace ClippedLattice

variable {rows : List (List (ℝ × ℝ))} (h : ClippedLattice g radius rows)

include h

theorem level {j : ℕ} {row : List (ℝ × ℝ)} (hrow : rows[j]? = some row) {p : ℝ × ℝ} (hp : p ∈ row) :
    p.2 = rowY g radius j := by
  obtain ⟨k, rfl, -⟩ := (h.mem_row j row hrow p).mp hp
  rw [latticePoint_eq]

/-- The first point of a row is the outermost one. -/
theorem abs_le_head {f : ℝ × ℝ} {rest : List (ℝ × ℝ)} (hrow : f :: rest ∈ rows) {p : ℝ × ℝ} (hp : p ∈ f :: rest) :
    f.1 ≤ -|p.1| := by
  have hle : ∀ q ∈ f :: rest, f.1 ≤ q.1 := by
    intro q hq
    rcases List.mem_cons.mp hq with rfl | hq
    · exact le_rfl
    · exact ((List.pairwise_cons.mp (h.increasing _ hrow)).1 q hq).le
  have h₁ := hle p hp
  have h₂ := hle _ (h.symmetric _ hrow p hp)
  rcases abs_cases p.1 with ⟨habs, -⟩ | ⟨habs, -⟩
  · rw [habs]
    exact h₂
  · rw [habs, neg_neg]
    exact h₁

theorem inDisc {row : List (ℝ × ℝ)} (hrow : row ∈ rows) {p : ℝ × ℝ} (hp : p ∈ row) : InDisc radius p := by
  obtain ⟨j, hj⟩ := List.mem_iff_getElem?.mp hrow
  obtain ⟨k, -, hdisc⟩ := (h.mem_row j row hj p).mp hp
  exact hdisc

theorem upward (hy : 0 < stepY g radius) : rows.Pairwise fun row row' => ∀ p ∈ row, ∀ q ∈ row',
    p.2 + stepY g radius ≤ q.2 := by
  refine List.pairwise_iff_getElem.mpr fun i j hi hj hij p hp q hq => ?_
  rw [h.level (List.getElem?_eq_getElem hi) hp, h.level (List.getElem?_eq_getElem hj) hq]
  exact add_le_rowY hy.le hij

/-- **No point is listed twice.** -/
theorem nodup (hy : 0 < stepY g radius) : rows.flatten.Nodup := by
  refine List.nodup_flatten.mpr ⟨fun row hrow => ?_, ?_⟩
  · exact (h.increasing row hrow).imp fun {p q} hlt he => absurd (congrArg Prod.fst he) hlt.ne
  · refine (h.upward hy).imp fun {row row'} hup => List.disjoint_left.mpr fun p hp hp' => ?_
    have := hup p hp p hp'
    linarith

end ClippedLattice

theorem clippedLattice_generated (hg₀ : 2 ≤ g 0) (hg₁ : 2 ≤ g 1) (hr : 0 < radius) {n : ℕ} {cols : ℕ → ℕ}
    (hn : ∀ j : ℕ, j < n ↔ rowY g radius j ≤ radius + stepY g radius * 0.5)
    (hc : ∀ j k : ℕ, k < cols j ↔ rowX g radius j k ≤ radius + stepX g radius * 0.5) :
    ClippedLattice g radius ((List.range n).map fun j => latticeRow g radius j (cols j)) := by
  have hx := stepX_pos hg₀ hr
  have hy := stepY_pos hg₁ hr
  constructor
  case mem_row =>
    intro j row hrow p
    rw [List.getElem?_map, Option.map_eq_some_iff] at hrow
    obtain ⟨j', hj', rfl⟩ := hrow
    obtain ⟨hlt, rfl⟩ := List.getElem?_eq_some_iff.mp hj'
    rw [List.getElem_range]
    exact mem_latticeRow_iff hx hr.le (hc j)
  case complete =>
    intro j k hdisc
    have habs := (abs_le.mp (hdisc.abs_snd_le hr.le)).2
    rw [latticePoint_eq] at habs
    dsimp only at habs
    rw [List.length_map, List.length_range, hn]
    linarith
  case increasing =>
    intro row hrow
    obtain ⟨j, -, rfl⟩ := List.mem_map.mp hrow
    refine (latticeRow_spaced hx.le j (cols j)).imp fun {p q} hle => ?_
    linarith
  case spaced =>
    intro row hrow
    obtain ⟨j, -, rfl⟩ := List.mem_map.mp hrow
    exact latticeRow_isChain hx j (cols j)
  case symmetric =>
    intro row hrow p hp
    obtain ⟨j, -, rfl⟩ := List.mem_map.mp hrow
    exact mirror_mem_latticeRow hg₀ hr (hc j) hp

theorem clippedLattice_of_layerRows (hg₀ : 2 ≤ g 0) (hg₁ : 2 ≤ g 1) (hr : 0 < radius) {fuel : ℕ}
    {rows : List (List (ℝ × ℝ))} (h : layerRows fuel g radius = some rows) : ClippedLattice g radius rows := by
  obtain ⟨n, cols, hn, hc, hrows⟩ := layerRows_real hg₀ hg₁ hr (enoughFuel_of_layerRows hg₀ hg₁ hr h)
  rw [h] at hrows
  cases hrows
  exact clippedLattice_generated hg₀ hg₁ hr hn hc

end Rows

/-! ## The generator -/

section Generator

variable {g : Fin 3 → ℕ} {radius depth : ℝ}

open AnalyticsManager Prog

/-- What the loops of the generator visit and what they store. -/
structure Generates (fuel : ℕ) (g : Fin 3 → ℕ) (radius depth : ℝ) (rows : List (List (ℝ × ℝ)))
    (points : List (ℝ × ℝ × ℝ)) : Prop where
  /-- The loops end: -/
  rows_eq : layerRows fuel g radius = some rows
  points_eq : gridPoints fuel g radius depth = some points
  lattice : ClippedLattice g radius rows
  nodup : rows.flatten.Nodup
  /-- every layer repeats the rows, at equidistant heights, from the bottom of the cylinder to its top. -/
  layers : points = (List.range (g 2)).flatMap fun i : ℕ =>
    rows.flatten.map fun p => (p.1, p.2, -depth / 2 + (i : ℝ) * (depth / ((g 2 - 1 : ℕ) : ℝ)))
  bottom : -depth / 2 + ((0 : ℕ) : ℝ) * (depth / ((g 2 - 1 : ℕ) : ℝ)) = -depth / 2
  top : -depth / 2 + ((g 2 - 1 : ℕ) : ℝ) * (depth / ((g 2 - 1 : ℕ) : ℝ)) = depth / 2
  /-- The first pass reserves the space of exactly the coordinates that the second pass stores. -/
  passes : points.length * 3 ≤ vectorMax → calculateGridKernel fuel g radius depth = (do
    reserve (points.length * 3)
    Prog.each appendCoordinate (points.map polar))
  returns : points.length * 3 ≤ vectorMax → ∀ (m : AnalyticsManager ℝ) (fd : FieldCollection ℝ),
    ∃ m', Returns (calculateGridKernel fuel g radius depth) (m.rewriting (some (stored fd [] []))) () m'
  stores : ∀ (m : AnalyticsManager ℝ) (fd : FieldCollection ℝ) (m' : AnalyticsManager ℝ),
    Returns (calculateGridKernel fuel g radius depth) (m.rewriting (some (stored fd [] []))) () m' →
      ∃ fd', m'.fieldData = some fd' ∧ fd'.coordinates = flat (points.map polar) ∧
        fd'.coordinates.length = points.length * 3 ∧
        -- read back as Cartesian points
        ∀ (i : ℕ) (p : ℝ × ℝ × ℝ), points[i]? = some p → ¬ (0 < hypot p.1 p.2.1 ∧ hypot p.1 p.2.1 < (epsilon : ℝ)) →
          ((unflat fd'.coordinates).map toPoint)[i]? = some ⟨p.1, p.2.1, p.2.2⟩

theorem calculateGridKernel_eq {fuel : ℕ} {points : List (ℝ × ℝ × ℝ)} (hg : ∀ i, 2 ≤ g i) (hr : 0 < radius)
    (hd : 0 < depth) (hp : gridPoints fuel g radius depth = some points)
    (hlen : points.length * 3 ≤ vectorMax) : calculateGridKernel fuel g radius depth = (do
      reserve (points.length * 3)
      Prog.each appendCoordinate (points.map polar)) := by
  have hsize := hlen.trans vectorMax_le_sizeMax
  have hw : wrap points.length = points.length := wrap_of_le (by omega)
  have hs : ¬ sizeMax / kDimension < points.length :=
    Nat.not_lt.mpr ((Nat.le_div_iff_mul_le (by decide)).mpr hsize)
  have hpos : ¬ (radius ≤ 0 ∨ depth ≤ 0) := not_or.mpr ⟨not_le.mpr hr, not_le.mpr hd⟩
  unfold calculateGridKernel
  rw [if_neg (by have := hg 0; have := hg 1; have := hg 2; omega), if_neg hpos, hp]
  dsimp only
  rw [hw, if_neg hs, kDimension, wrap_of_le hsize]

/-- **The generated grid is the clipped lattice.** With enough fuel for its loops, the generator visits
exactly the points of the lattice in the disc, layer by layer and row by row, and stores them. -/
theorem exists_generates (hg : ∀ i, 2 ≤ g i) (hr : 0 < radius) (hd : 0 < depth) :
    ∃ fuel₀, ∀ fuel ≥ fuel₀, ∃ rows points, Generates fuel g radius depth rows points := by
  obtain ⟨fuel₀, hfuel⟩ := exists_enoughFuel (hg 0) (hg 1) hr
  refine ⟨fuel₀, fun fuel hf => ?_⟩
  obtain ⟨n, cols, hn, hc, hrows⟩ := layerRows_real (hg 0) (hg 1) hr (hfuel fuel hf)
  have hlattice := clippedLattice_generated (hg 0) (hg 1) hr hn hc
  generalize (List.range n).map (fun j => latticeRow g radius j (cols j)) = rows at hrows hlattice
  obtain ⟨points, hpoints⟩ : ∃ points, points = (List.range (g 2)).flatMap fun iz =>
      rows.flatten.map fun p => (p.1, p.2, layerZ g depth iz) := ⟨_, rfl⟩
  have hgrid : gridPoints fuel g radius depth = some points :=
    gridPoints_eq_some.mpr ⟨rows, hrows, hpoints⟩
  have hne : ((g 2 - 1 : ℕ) : ℝ) ≠ 0 := by
    have := hg 2
    exact_mod_cast (by omega : g 2 - 1 ≠ 0)
  refine ⟨rows, points, hrows, hgrid, hlattice, hlattice.nodup (stepY_pos (hg 1) hr), ?_, ?_, ?_, ?_,
    fun hsize m fd => returns_calculateGridKernel hg hr hd hgrid hsize m fd, ?_⟩
  · have hz : ∀ i : ℕ, layerZ g depth i = -depth / 2 + i * (depth / ((g 2 - 1 : ℕ) : ℝ)) := by
      intro i
      rw [layerZ, stepZ]
      norm_num
      ring
    rw [hpoints]
    simp only [hz]
  · rw [Nat.cast_zero, zero_mul, add_zero]
  · rw [mul_div_cancel₀ _ hne]
    ring
  · exact calculateGridKernel_eq hg hr hd hgrid
  · rintro m fd m' hret
    have hwp : wp (fun _ _ => True) (fun _ m' => m' = m.rewriting (some (stored fd (points.map polar) [])))
        (fun _ _ => True) (calculateGridKernel fuel g radius depth) (m.rewriting (some (stored fd [] []))) := by
      refine wp_calculateGridKernel (fun _ _ => trivial) (fun _ _ _ => trivial) fuel g radius depth ?_
      intro points' _ _ _ hp _
      rw [hgrid] at hp
      cases hp
      rfl
    obtain rfl := wp_returns hret hwp
    refine ⟨_, rfl, rfl, ?_, fun i p hp hnear => ?_⟩
    · dsimp only [stored]
      rw [length_flat, List.length_map]
    · dsimp only [stored]
      rw [unflat_flat, List.map_map, List.getElem?_map, hp]
      exact congrArg some (toPoint_polar hnear)

/-- `exists_generates` for the coarsest grid of the unit cylinder. -/
theorem exists_generates_unit : ∃ fuel₀, ∀ fuel ≥ fuel₀, ∃ rows points,
    Generates fuel (fun _ => 2) 1 1 rows points := exists_generates (fun _ => le_rfl) one_pos one_pos

end Generator

end TPC.Analytics
