import Mathlib

/-!
# The plane between two horizontal lines

A segment that joins the line `y = y₀` with the line `y = y₁` is a pair `e` of abscissas. When both of
them grow, the segment sweeps an area.

* **`disjoint_interior_convexHull`**: sets on the two sides of a hyperplane; `disjoint_interior_of_line`,
  `disjoint_interior_of_value`;
* `ends`, `side`, `between`; **`mem_between`**: the area swept from one segment to the next;
* **`disjoint_between`**: areas swept after each other do not overlap;
* **`iUnion_between`**: they leave no hole; `iUnion_Icc`: nor do intervals one after the other.
-/

/-- **Convex hulls on the two sides of a hyperplane** have no interior point in common. -/
theorem disjoint_interior_convexHull {E : Type} [NormedAddCommGroup E] [NormedSpace ℝ E] {φ : E →L[ℝ] ℝ}
    (hφ : φ ≠ 0) {c : ℝ} {s t : Set E} (hs : ∀ p ∈ s, φ p ≤ c) (ht : ∀ p ∈ t, c ≤ φ p) :
    Disjoint (interior (convexHull ℝ s)) (interior (convexHull ℝ t)) := by
  have hopen : IsOpenMap φ := φ.isOpenMap_of_ne_zero hφ
  have hs' : interior (convexHull ℝ s) ⊆ Set.preimage φ (Set.Iio c) := by
    rw [← interior_Iic, hopen.preimage_interior_eq_interior_preimage φ.continuous]
    exact interior_mono (convexHull_min hs (convex_halfSpace_le φ.isLinear c))
  have ht' : interior (convexHull ℝ t) ⊆ Set.preimage φ (Set.Ioi c) := by
    rw [← interior_Ici, hopen.preimage_interior_eq_interior_preimage φ.continuous]
    exact interior_mono (convexHull_min ht (convex_halfSpace_ge φ.isLinear c))
  refine Set.disjoint_left.mpr fun p hp hp' => ?_
  have hlt : φ p < c := hs' hp
  have hgt : c < φ p := ht' hp'
  exact lt_asymm hlt hgt

/-- Sets below and above a horizontal line. -/
theorem disjoint_interior_of_line {c : ℝ} {s t : Set (ℝ × ℝ)} (hs : ∀ p ∈ s, p.2 ≤ c) (ht : ∀ p ∈ t, c ≤ p.2) :
    Disjoint (interior (convexHull ℝ s)) (interior (convexHull ℝ t)) := by
  have hsnd : ContinuousLinearMap.snd ℝ ℝ ℝ ≠ 0 := by
    intro h₀
    have happ : ContinuousLinearMap.snd ℝ ℝ ℝ (0, 1) = 0 := by rw [h₀]; rfl
    exact one_ne_zero happ
  exact disjoint_interior_convexHull hsnd hs ht

/-- Sets of numbers below and above another one. -/
theorem disjoint_interior_of_value {c : ℝ} {s t : Set ℝ} (hs : ∀ p ∈ s, p ≤ c) (ht : ∀ p ∈ t, c ≤ p) :
    Disjoint (interior (convexHull ℝ s)) (interior (convexHull ℝ t)) := by
  have hid : ContinuousLinearMap.id ℝ ℝ ≠ 0 := by
    intro h₀
    have happ : ContinuousLinearMap.id ℝ ℝ 1 = 0 := by rw [h₀]; rfl
    exact one_ne_zero happ
  exact disjoint_interior_convexHull hid hs ht

namespace Sweep

/-- The end points of a segment between the two lines. -/
def ends (y₀ y₁ : ℝ) (e : ℝ × ℝ) : Set (ℝ × ℝ) := {(e.1, y₀), (e.2, y₁)}

/-- What is swept from one segment to another. -/
noncomputable def between (y₀ y₁ : ℝ) (e e' : ℝ × ℝ) : Set (ℝ × ℝ) :=
  convexHull ℝ (ends y₀ y₁ e ∪ ends y₀ y₁ e')

/-- How far to the right of a segment a point is, up to the distance of the lines. -/
def side (y₀ y₁ : ℝ) (e p : ℝ × ℝ) : ℝ := p.1 * (y₁ - y₀) - (e.1 * (y₁ - p.2) + e.2 * (p.2 - y₀))

variable {y₀ y₁ : ℝ} {e e' p : ℝ × ℝ}

/-- The linear part of `side`. -/
def sideMap (y₀ y₁ : ℝ) (e : ℝ × ℝ) : ℝ × ℝ →L[ℝ] ℝ :=
  (y₁ - y₀) • ContinuousLinearMap.fst ℝ ℝ ℝ - (e.2 - e.1) • ContinuousLinearMap.snd ℝ ℝ ℝ

theorem sideMap_apply (e p : ℝ × ℝ) : sideMap y₀ y₁ e p = (y₁ - y₀) * p.1 - (e.2 - e.1) * p.2 := rfl

theorem side_eq (e p : ℝ × ℝ) : side y₀ y₁ e p = sideMap y₀ y₁ e p - (e.1 * y₁ - e.2 * y₀) := by
  rw [side, sideMap_apply]
  ring

theorem sideMap_ne_zero (h : y₀ < y₁) (e : ℝ × ℝ) : sideMap y₀ y₁ e ≠ 0 := by
  intro h₀
  have happ : sideMap y₀ y₁ e (1, 0) = 0 := by rw [h₀]; rfl
  rw [sideMap_apply, mul_one, mul_zero, sub_zero] at happ
  linarith

theorem side_nonneg_iff : 0 ≤ side y₀ y₁ e p ↔ e.1 * y₁ - e.2 * y₀ ≤ sideMap y₀ y₁ e p := by
  rw [side_eq, sub_nonneg]

theorem side_nonpos_iff : side y₀ y₁ e p ≤ 0 ↔ sideMap y₀ y₁ e p ≤ e.1 * y₁ - e.2 * y₀ := by
  rw [side_eq, sub_nonpos]

theorem side_anti (he : e ≤ e') (hp : y₀ ≤ p.2) (hp' : p.2 ≤ y₁) : side y₀ y₁ e' p ≤ side y₀ y₁ e p := by
  have h₁ : e.1 * (y₁ - p.2) ≤ e'.1 * (y₁ - p.2) := mul_le_mul_of_nonneg_right he.1 (by linarith)
  have h₂ : e.2 * (p.2 - y₀) ≤ e'.2 * (p.2 - y₀) := mul_le_mul_of_nonneg_right he.2 (by linarith)
  unfold side
  linarith

theorem side_ends (hp : p ∈ ends y₀ y₁ e) : side y₀ y₁ e p = 0 := by
  rcases hp with rfl | rfl
  · simp only [side]
    ring
  · simp only [side]
    ring

theorem height_ends (h : y₀ ≤ y₁) (hp : p ∈ ends y₀ y₁ e) : y₀ ≤ p.2 ∧ p.2 ≤ y₁ := by
  rcases hp with rfl | rfl
  · exact ⟨le_rfl, h⟩
  · exact ⟨h, le_rfl⟩

theorem side_ends_nonpos (h : y₀ ≤ y₁) (he : e ≤ e') (hp : p ∈ ends y₀ y₁ e) : side y₀ y₁ e' p ≤ 0 := by
  have hy := height_ends h hp
  exact (side_anti he hy.1 hy.2).trans_eq (side_ends hp)

theorem side_ends_nonneg (h : y₀ ≤ y₁) (he : e ≤ e') (hp : p ∈ ends y₀ y₁ e') : 0 ≤ side y₀ y₁ e p := by
  have hy := height_ends h hp
  exact (side_ends hp).symm.trans_le (side_anti he hy.1 hy.2)

/-- Left of `e` there is nothing of what is swept from `e` on. -/
theorem side_nonneg_of_mem (h : y₀ ≤ y₁) {e₀ : ℝ × ℝ} (h₀ : e₀ ≤ e) (he : e ≤ e')
    (hp : p ∈ ends y₀ y₁ e ∪ ends y₀ y₁ e') : 0 ≤ side y₀ y₁ e₀ p := by
  rcases hp with hp | hp
  · exact side_ends_nonneg h h₀ hp
  · exact side_ends_nonneg h (h₀.trans he) hp

theorem side_nonpos_of_mem (h : y₀ ≤ y₁) {e₀ : ℝ × ℝ} (he : e ≤ e') (h₀ : e' ≤ e₀)
    (hp : p ∈ ends y₀ y₁ e ∪ ends y₀ y₁ e') : side y₀ y₁ e₀ p ≤ 0 := by
  rcases hp with hp | hp
  · exact side_ends_nonpos h (he.trans h₀) hp
  · exact side_ends_nonpos h h₀ hp

/-- **What is swept after each other does not overlap.** -/
theorem disjoint_between (h : y₀ < y₁) {e₁ e₂ e₃ e₄ : ℝ × ℝ} (h₁ : e₁ ≤ e₂) (h₂ : e₂ ≤ e₃) (h₃ : e₃ ≤ e₄) :
    Disjoint (interior (between y₀ y₁ e₁ e₂)) (interior (between y₀ y₁ e₃ e₄)) := by
  refine disjoint_interior_convexHull (sideMap_ne_zero h e₂) (c := e₂.1 * y₁ - e₂.2 * y₀) ?_ ?_
  · exact fun p hp => side_nonpos_iff.mp (side_nonpos_of_mem h.le h₁ le_rfl hp)
  · exact fun p hp => side_nonneg_iff.mp (side_nonneg_of_mem h.le h₂ h₃ hp)

/-! ## The swept area -/

theorem mem_segment_ends (h : y₀ < y₁) (hp : y₀ ≤ p.2) (hp' : p.2 ≤ y₁) :
    ∃ x, x * (y₁ - y₀) = e.1 * (y₁ - p.2) + e.2 * (p.2 - y₀) ∧
      (x, p.2) ∈ segment ℝ (e.1, y₀) (e.2, y₁) := by
  have hg : 0 < y₁ - y₀ := by linarith
  refine ⟨(e.1 * (y₁ - p.2) + e.2 * (p.2 - y₀)) / (y₁ - y₀), div_mul_cancel₀ _ hg.ne', ?_⟩
  refine ⟨(y₁ - p.2) / (y₁ - y₀), (p.2 - y₀) / (y₁ - y₀), div_nonneg (by linarith) hg.le,
    div_nonneg (by linarith) hg.le, ?_, ?_⟩
  · rw [← add_div, div_eq_one_iff_eq hg.ne']
    ring
  · ext
    · simp only [Prod.smul_mk, smul_eq_mul, Prod.mk_add_mk]
      ring
    · simp only [Prod.smul_mk, smul_eq_mul, Prod.mk_add_mk]
      field_simp
      ring

/-- **The swept area**: between the lines, right of the first segment and left of the second. -/
theorem mem_between (h : y₀ < y₁) (he : e ≤ e') : p ∈ between y₀ y₁ e e' ↔
    y₀ ≤ p.2 ∧ p.2 ≤ y₁ ∧ 0 ≤ side y₀ y₁ e p ∧ side y₀ y₁ e' p ≤ 0 := by
  constructor
  · intro hp
    have hheight : ∀ q ∈ ends y₀ y₁ e ∪ ends y₀ y₁ e', y₀ ≤ q.2 ∧ q.2 ≤ y₁ := fun q hq =>
      hq.elim (height_ends h.le) (height_ends h.le)
    have hlin : IsLinearMap ℝ fun q : ℝ × ℝ => q.2 := (ContinuousLinearMap.snd ℝ ℝ ℝ).isLinear
    refine ⟨convexHull_min (fun q hq => (hheight q hq).1) (convex_halfSpace_ge hlin y₀) hp,
      convexHull_min (fun q hq => (hheight q hq).2) (convex_halfSpace_le hlin y₁) hp, ?_, ?_⟩
    · refine side_nonneg_iff.mpr (convexHull_min ?_ (convex_halfSpace_ge (sideMap y₀ y₁ e).isLinear _) hp)
      exact fun q hq => side_nonneg_iff.mp (side_nonneg_of_mem h.le le_rfl he hq)
    · refine side_nonpos_iff.mpr (convexHull_min ?_ (convex_halfSpace_le (sideMap y₀ y₁ e').isLinear _) hp)
      exact fun q hq => side_nonpos_iff.mp (side_nonpos_of_mem h.le he le_rfl hq)
  · rintro ⟨hy, hy', hside, hside'⟩
    have hg : 0 < y₁ - y₀ := by linarith
    obtain ⟨x, hx, hmem⟩ := mem_segment_ends (e := e) h hy hy'
    obtain ⟨x', hx', hmem'⟩ := mem_segment_ends (e := e') h hy hy'
    have hleft : (x, p.2) ∈ between y₀ y₁ e e' :=
      segment_subset_convexHull (.inl (.inl rfl)) (.inl (.inr rfl)) hmem
    have hright : (x', p.2) ∈ between y₀ y₁ e e' :=
      segment_subset_convexHull (.inr (.inl rfl)) (.inr (.inr rfl)) hmem'
    have hxp : x ≤ p.1 := le_of_mul_le_mul_right (by unfold side at hside; linarith) hg
    have hpx : p.1 ≤ x' := le_of_mul_le_mul_right (by unfold side at hside'; linarith) hg
    -- the point is on the horizontal segment from one to the other
    refine (convex_convexHull ℝ _).segment_subset hleft hright ?_
    rw [← Prod.image_mk_segment_left, segment_eq_Icc (hxp.trans hpx)]
    exact ⟨p.1, ⟨hxp, hpx⟩, rfl⟩

theorem between_union (h : y₀ < y₁) {e₁ e₂ e₃ : ℝ × ℝ} (h₁ : e₁ ≤ e₂) (h₂ : e₂ ≤ e₃) :
    between y₀ y₁ e₁ e₂ ∪ between y₀ y₁ e₂ e₃ = between y₀ y₁ e₁ e₃ := by
  ext p
  rw [Set.mem_union, mem_between h h₁, mem_between h h₂, mem_between h (h₁.trans h₂)]
  constructor
  · rintro (⟨hy, hy', hs, hs'⟩ | ⟨hy, hy', hs, hs'⟩)
    · exact ⟨hy, hy', hs, (side_anti h₂ hy hy').trans hs'⟩
    · exact ⟨hy, hy', hs.trans (side_anti h₁ hy hy'), hs'⟩
  · rintro ⟨hy, hy', hs, hs'⟩
    rcases le_total (side y₀ y₁ e₂ p) 0 with h₀ | h₀
    · exact .inl ⟨hy, hy', hs, h₀⟩
    · exact .inr ⟨hy, hy', h₀, hs'⟩

/-- **What is swept step by step is what is swept at once.** -/
theorem iUnion_between (h : y₀ < y₁) {es : ℕ → ℝ × ℝ} {n : ℕ} (hes : MonotoneOn es (Set.Iic n)) (hn : 0 < n) :
    ⋃ k < n, between y₀ y₁ (es k) (es (k + 1)) = between y₀ y₁ (es 0) (es n) := by
  induction n, hn using Nat.le_induction with
  | base => simp
  | succ n hn ih =>
    have hle : es 0 ≤ es n := hes (Nat.zero_le _) (Nat.le_succ n) (Nat.zero_le n)
    have hle' : es n ≤ es (n + 1) := hes (Nat.le_succ n) Set.self_mem_Iic (Nat.le_succ n)
    rw [Set.biUnion_lt_succ, ih (hes.mono (Set.Iic_subset_Iic.mpr (Nat.le_succ n))), between_union h hle hle']

/-- **Intervals one after the other** make up one interval. -/
theorem iUnion_Icc {f : ℕ → ℝ} {n : ℕ} (hf : MonotoneOn f (Set.Iic n)) (hn : 0 < n) :
    ⋃ k < n, Set.Icc (f k) (f (k + 1)) = Set.Icc (f 0) (f n) := by
  induction n, hn using Nat.le_induction with
  | base => simp
  | succ n hn ih =>
    have hle : f 0 ≤ f n := hf (Nat.zero_le _) (Nat.le_succ n) (Nat.zero_le n)
    have hle' : f n ≤ f (n + 1) := hf (Nat.le_succ n) Set.self_mem_Iic (Nat.le_succ n)
    rw [Set.biUnion_lt_succ, ih (hf.mono (Set.Iic_subset_Iic.mpr (Nat.le_succ n))),
      Set.Icc_union_Icc_eq_Icc hle hle']

end Sweep
