import TPC.Vtk.Mirror
import TPC.Vtk.Topology

/-!
# The solid mesh

In exact arithmetic: when the wedges that are written for an accepted input fill space without overlap.

* `triangulate_forall`, `Entered`: what holds of every triangle that is entered;
* `solid`, `signedVolume`, `ValidMesh`;
* `Copies`; `Copies.solid_wedge`, `Copies.signedVolume_wedge`: a wedge is a triangle times an interval;
* `InOrder`: rows and layers in order, up or down; `InOrder.disjoint`: the triangles of a layer do not overlap;
* **`accepted_validMesh`**: an accepted input that is in order gives a valid mesh;
* **`not_forall_validMesh`**: another one need not.
-/

namespace TPC.Vtk

open Fold Segment Triangle
open Arith hiding max

variable {points : List (CartesianPoint ℝ)}

/-! ## What is entered -/

section Enter

variable {F : Type} [Arith F] {qs : List (CartesianPoint F)} {P : Triangle → Prop}
  (hP : ∀ ts a b c ts', addTriangle qs ts a b c = .ok ts' → (∀ t ∈ ts, P t) → ∀ t ∈ ts', P t)

include hP

theorem stripWalk_forall {lower upper : Row} (fuel : ℕ) {i j : ℕ} {ts ts' : List Triangle}
    (h : stripWalk qs lower upper fuel i j ts = .ok ts') (hts : ∀ t ∈ ts, P t) : ∀ t ∈ ts', P t := by
  induction fuel generalizing i j ts with
  | zero =>
    rw [stripWalk] at h
    split_ifs at h
    cases h
    exact hts
  | succ fuel ih =>
    have hstep : ∀ a b c i' j', (addTriangle qs ts a b c >>= stripWalk qs lower upper fuel i' j') = .ok ts' →
        ∀ t ∈ ts', P t := by
      intro a b c i' j' h
      obtain ⟨ts₁, h₁, h₂⟩ := bind_eq_ok.mp h
      exact ih h₂ (hP _ _ _ _ _ h₁ hts)
    rw [stripWalk] at h
    split_ifs at h with hgo hlast hlast'
    · exact hstep _ _ _ _ _ h
    · exact hstep _ _ _ _ _ h
    · obtain ⟨pl, -, h⟩ := bind_eq_ok.mp h
      obtain ⟨pu, -, h⟩ := bind_eq_ok.mp h
      split_ifs at h
      · exact hstep _ _ _ _ _ h
      · exact hstep _ _ _ _ _ h
    · cases h
      exact hts

/-- What every entered triangle has, all triangles of the layer have. -/
theorem triangulate_forall {rows : List Row} {ts : List Triangle} (h : triangulate qs rows = .ok ts) :
    ∀ t ∈ ts, P t := by
  refine foldlM_inv (fun _ ts => ∀ t ∈ ts, P t) (fun _ row _ ts ts' _ hts hstrip => ?_) (by simp) h
  obtain ⟨lower, -, hstrip⟩ := bind_eq_ok.mp hstrip
  obtain ⟨upper, -, hstrip⟩ := bind_eq_ok.mp hstrip
  exact stripWalk_forall hP _ hstrip hts

end Enter

/-- Counterclockwise, and not flat. -/
def Entered (points : List (CartesianPoint ℝ)) (t : Triangle) : Prop :=
  0 < t.signedArea points ∧ ¬ t.Flat points

theorem addTriangle_entered {ts ts' : List Triangle} {a b c : ℕ} (h : addTriangle points ts a b c = .ok ts')
    (hts : ∀ t ∈ ts, Entered points t) : ∀ t ∈ ts', Entered points t := by
  obtain ⟨pa, ha, h⟩ := bind_eq_ok.mp h
  obtain ⟨pb, hb, h⟩ := bind_eq_ok.mp h
  obtain ⟨pc, hc, h⟩ := bind_eq_ok.mp h
  obtain rfl := vertex_of_getElem? (readAt_eq_ok.mp ha)
  obtain rfl := vertex_of_getElem? (readAt_eq_ok.mp hb)
  obtain rfl := vertex_of_getElem? (readAt_eq_ok.mp hc)
  have hone : ∀ {t : Triangle}, Entered points t → ∀ t' ∈ ts ++ [t], Entered points t' := by
    intro t ht t' ht'
    rcases List.mem_append.mp ht' with h' | h'
    · exact hts t' h'
    · rwa [List.mem_singleton.mp h']
  dsimp only at h
  split_ifs at h with hflat hneg
  · cases h
    exact hts
  · cases h
    have hswap : Triangle.signedArea points (a, c, b) =
        -Vtk.signedArea (vertex points a) (vertex points b) (vertex points c) := signedArea_swap _ _ _
    refine hone ⟨?_, ?_⟩
    · rw [hswap]
      exact neg_pos.mpr hneg
    · rwa [Triangle.Flat, hswap, approximatelyEqual_neg_zero]
  · cases h
    refine hone ⟨lt_of_le_of_ne (not_lt.mp hneg) fun h₀ => hflat ?_, hflat⟩
    rw [show Vtk.signedArea (vertex points a) (vertex points b) (vertex points c) = 0 from h₀.symm]
    exact approximatelyEqual_self 0

/-! ## Meshes -/

/-- Six times the signed volume of a tetrahedron. -/
def determinant (a b c d : CartesianPoint ℝ) : ℝ :=
  (b.x - a.x) * ((c.y - a.y) * (d.z - a.z) - (c.z - a.z) * (d.y - a.y)) -
    (b.y - a.y) * ((c.x - a.x) * (d.z - a.z) - (c.z - a.z) * (d.x - a.x)) +
    (b.z - a.z) * ((c.x - a.x) * (d.y - a.y) - (c.y - a.y) * (d.x - a.x))

/-- The signed volume of a wedge, from the three tetrahedra that it consists of. -/
noncomputable def signedVolume (points : List (CartesianPoint ℝ)) : List ℕ → ℝ
  | [a, b, c, a', b', c'] =>
    (determinant (vertex points a) (vertex points b) (vertex points c) (vertex points a') +
      determinant (vertex points b) (vertex points c) (vertex points a') (vertex points b') +
      determinant (vertex points c) (vertex points a') (vertex points b') (vertex points c')) / 6
  | _ => 0

/-- A point in space. -/
noncomputable def place (points : List (CartesianPoint ℝ)) (k : ℕ) : (ℝ × ℝ) × ℝ :=
  (position points k, (vertex points k).z)

/-- The space that a cell covers. -/
def solid (points : List (CartesianPoint ℝ)) (cell : List ℕ) : Set ((ℝ × ℝ) × ℝ) :=
  convexHull ℝ (Set.image (place points) {k | k ∈ cell})

/-- No cell is degenerate, all are oriented in the same way, and no two of them overlap. -/
structure ValidMesh (points : List (CartesianPoint ℝ)) (cells : List (List ℕ)) : Prop where
  nondegenerate : ∀ cell ∈ cells, signedVolume points cell ≠ 0
  oriented : ∀ cell ∈ cells, ∀ cell' ∈ cells, 0 < signedVolume points cell * signedVolume points cell'
  disjoint : cells.Pairwise fun cell cell' =>
    Disjoint (interior (solid points cell)) (interior (solid points cell'))

/-! ## Inputs in order -/

/-- The height of a layer. -/
noncomputable def height (points : List (CartesianPoint ℝ)) (n layer : ℕ) : ℝ := (vertex points (layer * n)).z

/-- Every layer is a copy of the first one, at its height. -/
def Copies (points : List (CartesianPoint ℝ)) (n layers : ℕ) : Prop :=
  ∀ layer < layers, ∀ k < n, place points (layer * n + k) = (position points k, height points n layer)

/-- Level rows from left to right, one above the other. -/
structure Upward (points : List (CartesianPoint ℝ)) (rows : List Row) : Prop where
  level : ∀ row ∈ rows, ∀ k, row.Has k → (vertex points k).y = (vertex points row.begin).y
  increasing : ∀ row ∈ rows, ∀ k, row.Has k → row.Has (k + 1) → (vertex points k).x < (vertex points (k + 1)).x
  upward : rows.IsChain fun lower upper => (vertex points lower.begin).y < (vertex points upper.begin).y

/-- Level rows from left to right, each above the one before or each below it, and copies of the first layer at
heights that grow from layer to layer or fall from layer to layer. -/
structure InOrder (points : List (CartesianPoint ℝ)) (n layers : ℕ) (rows : List Row) : Prop where
  level : ∀ row ∈ rows, ∀ k, row.Has k → (vertex points k).y = (vertex points row.begin).y
  increasing : ∀ row ∈ rows, ∀ k, row.Has k → row.Has (k + 1) → (vertex points k).x < (vertex points (k + 1)).x
  vertical : (rows.IsChain fun row next => (vertex points row.begin).y < (vertex points next.begin).y) ∨
    rows.IsChain fun row next => (vertex points next.begin).y < (vertex points row.begin).y
  copies : Copies points n layers
  monotone : (∀ layer, layer + 1 < layers → height points n layer < height points n (layer + 1)) ∨
    ∀ layer, layer + 1 < layers → height points n (layer + 1) < height points n layer

/-! ## Wedges -/

namespace Copies

variable {n layers : ℕ} (h : Copies points n layers)

include h

theorem vertex_copy {layer k : ℕ} (hl : layer < layers) (hk : k < n) :
    vertex points (layer * n + k) = ⟨(vertex points k).x, (vertex points k).y, height points n layer⟩ := by
  have hcopy := h layer hl k hk
  have hx : (vertex points (layer * n + k)).x = (vertex points k).x := congrArg (fun p => p.1.1) hcopy
  have hy : (vertex points (layer * n + k)).y = (vertex points k).y := congrArg (fun p => p.1.2) hcopy
  have hz : (vertex points (layer * n + k)).z = height points n layer := congrArg Prod.snd hcopy
  rw [← hx, ← hy, ← hz]

/-- Half the area times the height, with a sign. -/
theorem signedVolume_wedge {layer : ℕ} (hl : layer + 1 < layers) {t : Triangle} (ht : t.Proper n) :
    signedVolume points (wedge n layer t) =
      t.signedArea points / 2 * (height points n (layer + 1) - height points n layer) := by
  have hl' := Nat.lt_of_succ_lt hl
  rw [wedge, signedVolume, h.vertex_copy hl' ht.lt₁, h.vertex_copy hl' ht.lt₂, h.vertex_copy hl' ht.lt₃,
    h.vertex_copy hl ht.lt₁, h.vertex_copy hl ht.lt₂, Triangle.signedArea, Vtk.signedArea]
  rw [h.vertex_copy hl ht.lt₃]
  simp only [determinant]
  ring

/-- A wedge is a triangle times an interval. -/
theorem solid_wedge {layer : ℕ} (hl : layer + 1 < layers) {t : Triangle} (ht : t.Proper n) :
    solid points (wedge n layer t) =
      t.region points ×ˢ convexHull ℝ {height points n layer, height points n (layer + 1)} := by
  have hl' := Nat.lt_of_succ_lt hl
  rw [solid, Triangle.region, ← convexHull_prod]
  congr 1
  ext ⟨q, z⟩
  simp only [wedge, Set.mem_image, Set.mem_ofPred_eq, List.mem_cons, List.not_mem_nil, or_false, Set.mem_prod,
    Set.mem_insert_iff, Set.mem_singleton_iff, or_and_right, exists_or, exists_eq_left, h layer hl' _ ht.lt₁,
    h layer hl' _ ht.lt₂, h layer hl' _ ht.lt₃, h _ hl _ ht.lt₁, h _ hl _ ht.lt₂,
    h _ hl _ ht.lt₃, Prod.mk.injEq, eq_comm (a := q), eq_comm (a := z)]
  tauto

end Copies

/-! ## Rows -/

namespace Upward

variable {n : ℕ} {rows : List Row} {ts : List Triangle} (h : Upward points rows)

include h

theorem ordered (hcovers : Covers 0 n rows) (hn : n ≤ points.length) {i : ℕ} (hi : i + 1 < rows.length) :
    Ordered points rows[i] rows[i + 1] := by
  obtain ⟨-, hlt, -, hnext⟩ := hcovers.getElem (Nat.lt_of_succ_lt hi)
  obtain ⟨-, hlt', hle, -⟩ := hcovers.getElem hi
  have hlmem : rows[i] ∈ rows := List.getElem_mem _
  have humem : rows[i + 1] ∈ rows := List.getElem_mem _
  exact ⟨hlt, (hnext hi).ge, hlt', hle.trans hn, h.level _ hlmem, h.level _ humem, h.increasing _ hlmem,
    h.increasing _ humem, List.isChain_iff_getElem.mp h.upward i hi⟩

theorem exists_walks (hcovers : Covers 0 n rows) (hn : n ≤ points.length) : ∃ g : ℕ → List Triangle,
    triangulate points rows = .ok ((List.range (rows.length - 1)).map g).flatten ∧
    ∀ i (hi : i + 1 < rows.length), ∃ path,
      Staircase (firstEdge rows[i] rows[i + 1]) (lastEdge rows[i] rows[i + 1]) path ∧
        g i = kept points (walked path (stepCount rows[i] rows[i + 1])) := by
  refine exists_triangulate (fun i hi ts => ∃ path,
    Staircase (firstEdge rows[i] rows[i + 1]) (lastEdge rows[i] rows[i + 1]) path ∧
      ts = kept points (walked path (stepCount rows[i] rows[i + 1]))) fun i hi => ?_
  obtain ⟨path, hw⟩ := (h.ordered hcovers hn hi).exists_walk
  refine ⟨kept points (walked path (stepCount rows[i] rows[i + 1])), ⟨path, hw.1, rfl⟩, fun ts₀ => ?_⟩
  have hsteps : stairs (firstEdge rows[i] rows[i + 1]) (lastEdge rows[i] rows[i + 1]) ≤
      rows[i].stop - rows[i].begin + (rows[i + 1].stop - rows[i + 1].begin) := by
    simp only [stairs, firstEdge, lastEdge]
    omega
  rw [strip, readAt_of_lt (Nat.lt_of_succ_lt hi), ok_bind, readAt_of_lt hi, ok_bind]
  exact (hw.2 _ ts₀).trans (if_pos hsteps)

theorem row_le {i j : ℕ} (hij : i ≤ j) (hj : j < rows.length) :
    (vertex points rows[i].begin).y ≤ (vertex points rows[j].begin).y := by
  rcases Nat.eq_or_lt_of_le hij with rfl | hlt
  · exact le_rfl
  · have htrans : rows.Pairwise fun lower upper =>
        (vertex points lower.begin).y < (vertex points upper.begin).y :=
      List.isChain_iff_pairwise.mp h.upward
    exact (List.pairwise_iff_getElem.mp htrans i j _ hj hlt).le

/-- The first row of the later of two strips is between their triangles. -/
theorem disjoint_strips (hcovers : Covers 0 n rows) (hn : n ≤ points.length) {i j : ℕ} (hi : i + 1 < rows.length)
    (hj : j + 1 < rows.length) (hij : i < j) {path path' : ℕ → ℕ × ℕ}
    (hs : Staircase (firstEdge rows[i] rows[i + 1]) (lastEdge rows[i] rows[i + 1]) path)
    (hs' : Staircase (firstEdge rows[j] rows[j + 1]) (lastEdge rows[j] rows[j + 1]) path') {k k' : ℕ}
    (hk : k < stepCount rows[i] rows[i + 1]) (hk' : k' < stepCount rows[j] rows[j + 1]) :
    Disjoint (interior ((stepTriangle (path k) (path (k + 1))).region points))
      (interior ((stepTriangle (path' k') (path' (k' + 1))).region points)) := by
  have ho := h.ordered hcovers hn hi
  have ho' := h.ordered hcovers hn hj
  have hwithin := ho.step_within hs hk
  have hwithin' := ho'.step_within hs' hk'
  have hbelow : ∀ c ∈ (stepTriangle (path k) (path (k + 1))).corners,
      (position points c).2 ≤ (vertex points rows[j].begin).y := by
    intro c hc
    refine le_trans ?_ (h.row_le (show i + 1 ≤ j from hij) (Nat.lt_of_succ_lt hj))
    rcases hwithin c hc with hlower | hupper
    · exact (ho.lower_level c hlower).trans_le ho.upward.le
    · exact (ho.upper_level c hupper).le
  have habove : ∀ c ∈ (stepTriangle (path' k') (path' (k' + 1))).corners,
      (vertex points rows[j].begin).y ≤ (position points c).2 := by
    intro c hc
    rcases hwithin' c hc with hlower | hupper
    · exact (ho'.lower_level c hlower).ge
    · exact ho'.upward.le.trans (ho'.upper_level c hupper).ge
  simp only [corners, List.forall_mem_cons] at hbelow habove
  refine disjoint_interior_of_line (c := (vertex points rows[j].begin).y) ?_ ?_
  · rintro p (rfl | rfl | rfl)
    · exact hbelow.1
    · exact hbelow.2.1
    · exact hbelow.2.2.1
  · rintro p (rfl | rfl | rfl)
    · exact habove.1
    · exact habove.2.1
    · exact habove.2.2.1

theorem disjoint (hcovers : Covers 0 n rows) (hn : n ≤ points.length) (hts : triangulate points rows = .ok ts) :
    ts.Pairwise fun t t' => Disjoint (interior (t.region points)) (interior (t'.region points)) := by
  obtain ⟨g, heq, hg⟩ := h.exists_walks hcovers hn
  rw [hts] at heq
  cases heq
  refine List.pairwise_flatten.mpr ⟨fun l hl => ?_, ?_⟩
  · obtain ⟨i, hi, rfl⟩ := List.mem_map.mp hl
    have hi' := List.mem_range.mp hi
    obtain ⟨path, hs, he⟩ := hg i (by omega)
    rw [he]
    exact ((h.ordered hcovers hn (by omega)).walked_disjoint hs).sublist List.filter_sublist
  · rw [List.pairwise_map]
    refine List.pairwise_iff_getElem.mpr fun i j hi hj hij t ht t' ht' => ?_
    rw [List.length_range] at hi hj
    rw [List.getElem_range] at ht ht'
    have hi' : i + 1 < rows.length := by omega
    have hj' : j + 1 < rows.length := by omega
    obtain ⟨path, hs, he⟩ := hg i hi'
    obtain ⟨path', hs', he'⟩ := hg j hj'
    rw [he] at ht
    rw [he'] at ht'
    obtain ⟨k, hk, rfl⟩ := List.mem_map.mp (List.mem_of_mem_filter ht)
    obtain ⟨k', hk', rfl⟩ := List.mem_map.mp (List.mem_of_mem_filter ht')
    exact h.disjoint_strips hcovers hn hi' hj' hij hs hs' (List.mem_range.mp hk) (List.mem_range.mp hk')

end Upward

namespace InOrder

variable {n layers : ℕ} {rows : List Row} {ts : List Triangle} (h : InOrder points n layers rows)

include h

/-- Rows that go down go up in the mirror. -/
theorem upward_or_mirror : Upward points rows ∨ Upward (points.map mirror) rows := by
  rcases h.vertical with hup | hdown
  · exact .inl ⟨h.level, h.increasing, hup⟩
  · refine .inr ⟨fun row hrow k hk => ?_, fun row hrow k hk hk' => ?_, hdown.imp fun row next hlt => ?_⟩
    · rw [vertex_mirror, vertex_mirror]
      exact congrArg Neg.neg (h.level row hrow k hk)
    · rw [vertex_mirror, vertex_mirror]
      exact h.increasing row hrow k hk hk'
    · rw [vertex_mirror, vertex_mirror]
      exact neg_lt_neg hlt

/-- **The triangles of the layer do not overlap.** -/
theorem disjoint (hcovers : Covers 0 n rows) (hn : n ≤ points.length) (hts : triangulate points rows = .ok ts) :
    ts.Pairwise fun t t' => Disjoint (interior (t.region points)) (interior (t'.region points)) := by
  rcases h.upward_or_mirror with hup | hdown
  · exact hup.disjoint hcovers hn hts
  · have hmirror := hdown.disjoint hcovers (by rwa [List.length_map]) (triangulate_mirror hts)
    exact (List.pairwise_map.mp hmirror).imp disjoint_mirror

theorem disjoint_slabs {layer layer' : ℕ} (hlt : layer < layer') (hl : layer' + 1 < layers) :
    Disjoint (interior (convexHull ℝ {height points n layer, height points n (layer + 1)}))
      (interior (convexHull ℝ {height points n layer', height points n (layer' + 1)})) := by
  have hmem : layer ∈ Set.Iio layers := Set.mem_Iio.mpr (by omega)
  have hmem₁ : layer + 1 ∈ Set.Iio layers := Set.mem_Iio.mpr (by omega)
  have hmem' : layer' ∈ Set.Iio layers := Set.mem_Iio.mpr (by omega)
  have hmem₁' : layer' + 1 ∈ Set.Iio layers := Set.mem_Iio.mpr hl
  rcases h.monotone with hup | hdown
  · have hmono : MonotoneOn (height points n) (Set.Iio layers) :=
      monotoneOn_of_le_add_one Set.ordConnected_Iio fun a _ _ ha => (hup a ha).le
    refine disjoint_interior_of_value (c := height points n (layer + 1)) ?_ ?_
    · rintro z (rfl | rfl)
      · exact hmono hmem hmem₁ (Nat.le_succ _)
      · exact le_rfl
    · rintro z (rfl | rfl)
      · exact hmono hmem₁ hmem' hlt
      · exact hmono hmem₁ hmem₁' (Nat.le_succ_of_le hlt)
  · have hanti : AntitoneOn (height points n) (Set.Iio layers) :=
      antitoneOn_of_add_one_le Set.ordConnected_Iio fun a _ _ ha => (hdown a ha).le
    refine (disjoint_interior_of_value (c := height points n (layer + 1)) ?_ ?_).symm
    · rintro z (rfl | rfl)
      · exact hanti hmem₁ hmem' hlt
      · exact hanti hmem₁ hmem₁' (Nat.le_succ_of_le hlt)
    · rintro z (rfl | rfl)
      · exact hanti hmem hmem₁ (Nat.le_succ _)
      · exact le_rfl

theorem slabs_mul_pos {layer layer' : ℕ} (hl : layer + 1 < layers) (hl' : layer' + 1 < layers) :
    0 < (height points n (layer + 1) - height points n layer) *
      (height points n (layer' + 1) - height points n layer') := by
  rcases h.monotone with hup | hdown
  · exact mul_pos (sub_pos.mpr (hup layer hl)) (sub_pos.mpr (hup layer' hl'))
  · exact mul_pos_of_neg_of_neg (sub_neg.mpr (hdown layer hl)) (sub_neg.mpr (hdown layer' hl'))

/-- **The mesh of an accepted input in order is valid.** -/
theorem validMesh (ha : Accepted points n layers rows ts) :
    ValidMesh points ((List.range (layers - 1)).flatMap fun layer => ts.map (wedge n layer)) := by
  have hn : n ≤ points.length := by
    rw [ha.length]
    exact Nat.le_mul_of_pos_left n (Nat.lt_of_lt_of_le two_pos ha.two_layers)
  have hentered : ∀ t ∈ ts, Entered points t :=
    triangulate_forall (fun _ _ _ _ _ => addTriangle_entered) ha.triangles_eq
  have hcell : ∀ cell ∈ (List.range (layers - 1)).flatMap fun layer => ts.map (wedge n layer),
      ∃ layer t, layer + 1 < layers ∧ t ∈ ts ∧ cell = wedge n layer t := by
    intro cell hcell
    obtain ⟨layer, hl, hcell⟩ := List.mem_flatMap.mp hcell
    obtain ⟨t, ht, rfl⟩ := List.mem_map.mp hcell
    have := List.mem_range.mp hl
    exact ⟨layer, t, by omega, ht, rfl⟩
  have hproduct : ∀ {layer layer' t t'}, layer + 1 < layers → layer' + 1 < layers → t ∈ ts → t' ∈ ts →
      0 < signedVolume points (wedge n layer t) * signedVolume points (wedge n layer' t') := by
    intro layer layer' t t' hl hl' ht ht'
    rw [h.copies.signedVolume_wedge hl (ha.proper t ht), h.copies.signedVolume_wedge hl' (ha.proper t' ht'), mul_mul_mul_comm]
    exact mul_pos (mul_pos (half_pos (hentered t ht).1) (half_pos (hentered t' ht').1)) (h.slabs_mul_pos hl hl')
  constructor
  case nondegenerate =>
    intro cell hmem hzero
    obtain ⟨layer, t, hl, ht, rfl⟩ := hcell cell hmem
    have hpos := hproduct hl hl ht ht
    rw [hzero, zero_mul] at hpos
    exact lt_irrefl 0 hpos
  case oriented =>
    intro cell hmem cell' hmem'
    obtain ⟨layer, t, hl, ht, rfl⟩ := hcell cell hmem
    obtain ⟨layer', t', hl', ht', rfl⟩ := hcell cell' hmem'
    exact hproduct hl hl' ht ht'
  case disjoint =>
    refine List.pairwise_flatMap.mpr ⟨fun layer hl => ?_, ?_⟩
    · -- two triangles of one layer
      have hl' : layer + 1 < layers := by
        have := List.mem_range.mp hl
        omega
      rw [List.pairwise_map]
      refine (h.disjoint ha.covers hn ha.triangles_eq).imp_of_mem fun {t t'} ht ht' hdisjoint => ?_
      rw [h.copies.solid_wedge hl' (ha.proper t ht), h.copies.solid_wedge hl' (ha.proper t' ht'), interior_prod_eq,
        interior_prod_eq]
      exact Set.Disjoint.set_prod_left hdisjoint _ _
    · -- two layers
      refine List.pairwise_lt_range.imp_of_mem fun {layer layer'} _ hl' hlt cell hmem cell' hmem' => ?_
      obtain ⟨t, ht, rfl⟩ := List.mem_map.mp hmem
      obtain ⟨t', ht', rfl⟩ := List.mem_map.mp hmem'
      have hl₂ : layer' + 1 < layers := by
        have := List.mem_range.mp hl'
        omega
      rw [h.copies.solid_wedge (by omega) (ha.proper t ht), h.copies.solid_wedge hl₂ (ha.proper t' ht'), interior_prod_eq,
        interior_prod_eq]
      exact Set.Disjoint.set_prod_right (h.disjoint_slabs hlt hl₂) _ _

end InOrder

/-! ## Layers over each other -/

section Prism

variable {zs : List ℝ} {ps : List (ℝ × ℝ)}

theorem vertex_prism {i k : ℕ} (hi : i < zs.length) (hk : k < ps.length) :
    vertex (prism zs ps) (i * ps.length + k) = lift zs[i] ps[k] :=
  vertex_of_getElem? (prism_getElem? hi hk)

theorem height_prism {i : ℕ} (hi : i < zs.length) (hps : 0 < ps.length) :
    height (prism zs ps) ps.length i = zs[i] := by
  have h := vertex_prism hi hps
  rw [Nat.add_zero] at h
  rw [height, h]
  rfl

theorem copies_prism : Copies (prism zs ps) ps.length zs.length := by
  intro i hi k hk
  have h₀ := vertex_prism (Nat.zero_lt_of_lt hi) hk
  rw [Nat.zero_mul, Nat.zero_add] at h₀
  rw [height_prism hi (Nat.zero_lt_of_lt hk), place, position, position, vertex_prism hi hk, h₀]
  rfl

end Prism

/-- **What acceptance means.** The cells are the triangles of the first layer, extruded from each layer to the
next, and every triangle is counterclockwise and not flat. If the layers and the rows that were found are in
order, the mesh is valid. -/
theorem accepted_validMesh (fs : FileSystem) (field coordinates : List ℝ) (path : String)
    (hc : coordinates.length < 2 ^ 60) :
    (export3dFieldToVtk fs field coordinates path).Ends fun file => ∃ n layers rows ts,
      Accepted file.points n layers rows ts ∧ file.points = (unflat coordinates).map toPoint ∧
      file.cells = ((List.range (layers - 1)).flatMap fun layer => ts.map (wedge n layer)) ∧
      (∀ t ∈ ts, Entered file.points t) ∧
      (InOrder file.points n layers rows → ValidMesh file.points file.cells) := by
  refine export3dFieldToVtk_ends ((buildFile_ends field coordinates path hc).imp fun file h => ?_)
  obtain ⟨n, layers, rows, ts, ha, -, -, rfl⟩ := h
  exact ⟨n, layers, rows, ts, ha, rfl, rfl,
    triangulate_forall (fun _ _ _ _ _ => addTriangle_entered) ha.triangles_eq, fun h => h.validMesh ha⟩

theorem inOrder_tent : InOrder (prism [0, 1] tentRows.flatten) 3 2 (ranges 0 tentRows) := by
  have h₀ : vertex (prism [0, 1] tentRows.flatten) 0 = ⟨0, 0, 0⟩ := rfl
  have h₁ : vertex (prism [0, 1] tentRows.flatten) 1 = ⟨1, 0, 0⟩ := rfl
  have h₂ : vertex (prism [0, 1] tentRows.flatten) 2 = ⟨0, 1, 0⟩ := rfl
  have hrows : ranges 0 tentRows = [⟨0, 2⟩, ⟨2, 3⟩] := rfl
  rw [hrows]
  constructor
  case level =>
    rintro row hrow k ⟨hk, hk'⟩
    simp only [List.mem_cons, List.not_mem_nil, or_false] at hrow
    rcases hrow with rfl | rfl
    · dsimp only at hk hk'
      interval_cases k
      · rfl
      · rw [h₀, h₁]
    · dsimp only at hk hk'
      interval_cases k
      rfl
  case increasing =>
    rintro row hrow k ⟨hk, hk'⟩ ⟨-, hk''⟩
    simp only [List.mem_cons, List.not_mem_nil, or_false] at hrow
    rcases hrow with rfl | rfl
    · dsimp only at hk hk' hk''
      obtain rfl : k = 0 := by omega
      rw [h₀, h₁]
      exact zero_lt_one
    · dsimp only at hk hk' hk''
      omega
  case vertical =>
    left
    rw [List.isChain_pair, h₀, h₂]
    exact zero_lt_one
  case copies => exact copies_prism
  case monotone =>
    left
    intro layer hl
    obtain rfl : layer = 0 := by omega
    have hz : height (prism [0, 1] tentRows.flatten) 3 0 = 0 := rfl
    have hz' : height (prism [0, 1] tentRows.flatten) 3 1 = 1 := rfl
    rw [hz, hz']
    exact zero_lt_one

/-- `accepted_validMesh` for the smallest mesh. -/
theorem accepted_validMesh_tent : ∃ file, export3dFieldToVtk workingFiles (List.replicate 18 0) (flat tent)
    "field.vtk" = .ok file ∧ ValidMesh file.points file.cells := by
  have hfield : (List.replicate 18 (0 : ℝ)).length = (flat tent).length := rfl
  have hpath : "field.vtk" ≠ "" := by decide
  have hworks : workingFiles.Works "field.vtk" := ⟨rfl, rfl, rfl⟩
  obtain ⟨file, hfile, hcount, hlen⟩ := stores_tent.exists_buildFile hfield hpath
  have hexport := export3dFieldToVtk_of_works hworks hfile
  obtain ⟨n, layers, rows, ts, ha, hpoints, hcells, -, hvalid⟩ :=
    (accepted_validMesh workingFiles (List.replicate 18 0) (flat tent) "field.vtk" (by simp [tent])).of_ok hexport
  refine ⟨file, hexport, hvalid ?_⟩
  rw [unflat_flat, stores_tent.points] at hpoints
  -- six points and one cell: two layers of three points
  have hlength : layers * n = 6 := by
    rw [← ha.length, hpoints]
    rfl
  have hone : ts.length * (layers - 1) = 1 := by
    rw [← length_cells n, ← hcells, hlen, hcount]
    rfl
  have hlayers : layers = 2 := by
    have hle : layers - 1 ≤ 1 := Nat.le_of_dvd one_pos (Dvd.intro_left _ hone)
    have htwo := ha.two_layers
    omega
  subst hlayers
  obtain rfl : n = 3 := by omega
  have hrows := ha.rows_eq
  rw [hpoints] at hrows ⊢
  have hfound := stores_tent.detectRows_eq.symm.trans hrows
  cases hfound
  exact inOrder_tent

/-! ## A layer that goes back -/

/-- The smallest mesh with a third layer in the place of the first. -/
noncomputable def turned : List (ℝ × ℝ × ℝ) :=
  [(0, 0, 0), (1, 0, 0), (1, Real.pi / 2, 0), (0, 0, 1), (1, 0, 1), (1, Real.pi / 2, 1),
    (0, 0, 0), (1, 0, 0), (1, Real.pi / 2, 0)]

theorem stores_turned : Stores 1 1 1 1 1 [0, 1, 0] tentRows turned where
  points := by simp [turned, toPoint, prism, lift, tentRows, Arith.cos_real, Arith.sin_real]
  size := by simp [turned, vectorMax]
  layers := by simp
  height := by simp
  gap z₀ z₁ h₀ h₁ := by
    cases h₀
    cases h₁
    simp
  sz_large := stores_tent.sz_large
  rowList := stores_tent.rowList
  sx_pos := one_pos
  sy_large := stores_tent.sy_large
  area_large := stores_tent.area_large
  two_rows := le_rfl
  two_points := stores_tent.two_points

/-- **Not every accepted input gives a valid mesh.** A layer may go back to the height of an earlier one. -/
theorem not_forall_validMesh : ¬ ∀ (fs : FileSystem) (field coordinates : List ℝ) (path : String)
    (file : VtkFile ℝ), export3dFieldToVtk fs field coordinates path = .ok file →
      ValidMesh file.points file.cells := by
  intro hall
  have hfield : (List.replicate 27 (0 : ℝ)).length = (flat turned).length := rfl
  have hpath : "field.vtk" ≠ "" := by decide
  obtain ⟨file, hfile, hcount, hcells⟩ := stores_turned.exists_buildFile hfield hpath
  have hvalid := hall workingFiles _ _ _ file (export3dFieldToVtk_of_works ⟨rfl, rfl, rfl⟩ hfile)
  obtain ⟨n, layers, rows, ts, ha, -, -, rfl⟩ := (buildFile_ends (List.replicate 27 0) (flat turned) "field.vtk"
    (by simp [turned])).of_ok hfile
  have hpoints : (unflat (flat turned)).map toPoint = prism [0, 1, 0] tentRows.flatten := by
    rw [unflat_flat, stores_turned.points]
  -- nine points and two cells: three layers of three points
  have hlength : layers * n = 9 := by
    rw [← ha.length, hpoints]
    rfl
  have hcells : ts.length * (layers - 1) = 2 := hcount
  have htwo := ha.two_layers
  have hlayers : layers = 3 := by
    have hle : layers - 1 ≤ 2 := Nat.le_of_dvd two_pos (Dvd.intro_left _ hcells)
    have hne : layers ≠ 2 := by
      rintro rfl
      omega
    omega
  subst hlayers
  obtain rfl : n = 3 := by omega
  obtain ⟨t, ht⟩ := List.exists_mem_of_ne_nil ts ha.ts_ne
  have hproper := ha.proper t ht
  have hcopies : Copies (prism [0, 1, 0] tentRows.flatten) 3 3 := copies_prism
  have h₀ : height (prism [0, 1, 0] tentRows.flatten) 3 0 = 0 := rfl
  have h₁ : height (prism [0, 1, 0] tentRows.flatten) 3 1 = 1 := rfl
  have h₂ : height (prism [0, 1, 0] tentRows.flatten) 3 2 = 0 := rfl
  have hmem : ∀ layer < 2, wedge 3 layer t ∈ (fileOf (List.replicate 27 0) (flat turned) 3 3 ts).cells :=
    fun layer hl => List.mem_flatMap.mpr ⟨layer, List.mem_range.mpr hl, List.mem_map_of_mem ht⟩
  have hpos := hvalid.oriented _ (hmem 0 two_pos) _ (hmem 1 one_lt_two)
  change 0 < signedVolume ((unflat (flat turned)).map toPoint) _ *
    signedVolume ((unflat (flat turned)).map toPoint) _ at hpos
  rw [hpoints, hcopies.signedVolume_wedge (by decide) hproper, hcopies.signedVolume_wedge (by decide) hproper,
    h₀, h₁, h₂] at hpos
  nlinarith [sq_nonneg (t.signedArea (prism [0, 1, 0] tentRows.flatten))]

end TPC.Vtk
