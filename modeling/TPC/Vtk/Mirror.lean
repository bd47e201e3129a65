import TPC.Vtk.Strip

/-!
# The mirror image of a layer

The exporter compares abscissas, and heights up to their sign: what it does with the mirror image of a layer is
the mirror image of what it does with the layer.

* `mirror`, `Triangle.turn`: a point and a triangle in the mirror;
* `addTriangle_mirror`, `stripWalk_mirror`, **`triangulate_mirror`**: the triangulation of the image;
* **`disjoint_mirror`**: triangles overlap when their images do.
-/

namespace TPC.Vtk

open Fold Triangle
open Arith hiding max

variable {points : List (CartesianPoint ℝ)}

/-- A point on the other side of the x axis. -/
def mirror (p : CartesianPoint ℝ) : CartesianPoint ℝ := ⟨p.x, -p.y, p.z⟩

/-- The same triangle, the other way round. -/
def Triangle.turn (t : Triangle) : Triangle := (t.1, t.2.2, t.2.1)

/-! ## The triangulation -/

theorem vertex_mirror (k : ℕ) : vertex (points.map mirror) k = mirror (vertex points k) := by
  have hzero : mirror ⟨0, 0, 0⟩ = ⟨0, 0, 0⟩ := by rw [mirror, neg_zero]
  have hget := List.getD_map (l := points) (n := k) (d := ⟨0, 0, 0⟩) mirror
  rwa [hzero] at hget

theorem readAt_mirror {k : ℕ} {p : CartesianPoint ℝ} (h : readAt points k = .ok p) :
    readAt (points.map mirror) k = .ok (mirror p) := by
  rw [readAt_eq_ok] at h ⊢
  rw [List.getElem?_map, h]
  rfl

theorem signedArea_mirror (a b c : CartesianPoint ℝ) :
    Vtk.signedArea (mirror a) (mirror b) (mirror c) = -Vtk.signedArea a b c := by
  simp only [Vtk.signedArea, mirror]
  ring

theorem addTriangle_mirror {ts ts' : List Triangle} {a b c : ℕ} (h : addTriangle points ts a b c = .ok ts') :
    addTriangle (points.map mirror) (ts.map turn) a b c = .ok (ts'.map turn) := by
  obtain ⟨pa, ha, h⟩ := bind_eq_ok.mp h
  obtain ⟨pb, hb, h⟩ := bind_eq_ok.mp h
  obtain ⟨pc, hc, h⟩ := bind_eq_ok.mp h
  rw [addTriangle, readAt_mirror ha, ok_bind, readAt_mirror hb, ok_bind, readAt_mirror hc, ok_bind]
  dsimp only at h ⊢
  rw [signedArea_mirror]
  have hiff := approximatelyEqual_neg_zero (Vtk.signedArea pa pb pc)
  split_ifs at h with hflat hneg
  · cases h
    rw [if_pos (hiff.mpr hflat)]
    rfl
  · cases h
    rw [if_neg (mt hiff.mp hflat), if_neg (by linarith), List.map_append]
    rfl
  · cases h
    have hne : Vtk.signedArea pa pb pc ≠ 0 := fun h₀ => hflat (h₀ ▸ approximatelyEqual_self 0)
    have hpos := lt_of_le_of_ne (not_lt.mp hneg) hne.symm
    rw [if_neg (mt hiff.mp hflat), if_pos (neg_lt_zero.mpr hpos), List.map_append]
    rfl

theorem stripWalk_mirror {lower upper : Row} (fuel : ℕ) {i j : ℕ} {ts ts' : List Triangle}
    (h : stripWalk points lower upper fuel i j ts = .ok ts') :
    stripWalk (points.map mirror) lower upper fuel i j (ts.map turn) = .ok (ts'.map turn) := by
  induction fuel generalizing i j ts with
  | zero =>
    rw [stripWalk] at h ⊢
    split_ifs at h ⊢
    cases h
    rfl
  | succ fuel ih =>
    have hstep : ∀ a b c i' j', (addTriangle points ts a b c >>= stripWalk points lower upper fuel i' j') = .ok ts' →
        (addTriangle (points.map mirror) (ts.map turn) a b c >>=
          stripWalk (points.map mirror) lower upper fuel i' j') = .ok (ts'.map turn) := by
      intro a b c i' j' h
      obtain ⟨ts₁, h₁, h₂⟩ := bind_eq_ok.mp h
      rw [addTriangle_mirror h₁, ok_bind]
      exact ih h₂
    rw [stripWalk] at h ⊢
    split_ifs at h ⊢ with hgo hlast hlast'
    · exact hstep _ _ _ _ _ h
    · exact hstep _ _ _ _ _ h
    · obtain ⟨pl, hl, h⟩ := bind_eq_ok.mp h
      obtain ⟨pu, hu, h⟩ := bind_eq_ok.mp h
      rw [readAt_mirror hl, ok_bind, readAt_mirror hu, ok_bind]
      -- the abscissas are the same
      change (if pl.x < pu.x then _ else _) = _
      split_ifs at h ⊢
      · exact hstep _ _ _ _ _ h
      · exact hstep _ _ _ _ _ h
    · cases h
      rfl

/-- **The triangulation of the mirror image** is the mirror image of the triangulation. -/
theorem triangulate_mirror {rows : List Row} {ts : List Triangle} (h : triangulate points rows = .ok ts) :
    triangulate (points.map mirror) rows = .ok (ts.map turn) := by
  have hstrips : ∀ (l : List ℕ) (ts₀ : List Triangle), l.foldlM (strip points rows) ts₀ = .ok ts →
      l.foldlM (strip (points.map mirror) rows) (ts₀.map turn) = .ok (ts.map turn) := by
    intro l
    induction l with
    | nil =>
      intro ts₀ h
      cases h
      rfl
    | cons i l ih =>
      intro ts₀ h
      rw [List.foldlM_cons] at h ⊢
      obtain ⟨ts₁, h₁, h₂⟩ := bind_eq_ok.mp h
      obtain ⟨lower, hl, h₁⟩ := bind_eq_ok.mp h₁
      obtain ⟨upper, hu, h₁⟩ := bind_eq_ok.mp h₁
      rw [strip, hl, ok_bind, hu, ok_bind, stripWalk_mirror _ h₁, ok_bind]
      exact ih ts₁ h₂
  exact hstrips _ [] h

/-! ## The regions -/

/-- The plane, seen in the mirror. -/
def mirrorPlane : (ℝ × ℝ) ≃L[ℝ] ℝ × ℝ := (ContinuousLinearEquiv.refl ℝ ℝ).prodCongr (ContinuousLinearEquiv.neg ℝ)

theorem position_mirror (k : ℕ) : position (points.map mirror) k = mirrorPlane (position points k) := by
  rw [position, vertex_mirror]
  rfl

theorem region_turn (t : Triangle) :
    t.turn.region (points.map mirror) = Set.image mirrorPlane (t.region points) := by
  have himage := LinearMap.image_convexHull mirrorPlane.toLinearMap
    {position points t.1, position points t.2.1, position points t.2.2}
  rw [Triangle.region, Triangle.region, position_mirror, position_mirror, position_mirror]
  refine Eq.trans ?_ himage.symm
  rw [Set.image_insert_eq, Set.image_pair, Set.pair_comm]
  rfl

/-- **Triangles overlap** when their images do. -/
theorem disjoint_mirror {t t' : Triangle}
    (h : Disjoint (interior (t.turn.region (points.map mirror))) (interior (t'.turn.region (points.map mirror)))) :
    Disjoint (interior (t.region points)) (interior (t'.region points)) := by
  rw [region_turn, region_turn] at h
  have himage : ∀ s : Set (ℝ × ℝ), interior (Set.image mirrorPlane s) = Set.image mirrorPlane (interior s) :=
    fun s => (mirrorPlane.toHomeomorph.image_interior s).symm
  rwa [himage, himage, Set.disjoint_image_iff mirrorPlane.injective] at h

end TPC.Vtk
