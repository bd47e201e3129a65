import TPC.Analytics.Clipped
import TPC.Vtk.Rows

/-!
# Row detection under rounding

The exporter recomputes `x` and `y` from the stored `r` and `phi`. How far this takes a point from where it
was grows with its distance from the axis; what the exporter takes for equal grows with its height only.

* `roundingError`, `Near`: what a point is read back as;
* `approximatelyEqual_of_near`, `not_approximatelyEqual_of_near`: two points of a row, and of two rows;
* `detected_of_forall₂`: rows that are detected in spite of the errors;
* `Survives`, `Fits`: the rows are found whatever the errors are; no point is too far out for its height;
* **`survives_iff_fits`**: exactly then the rows are found;
* `fits_of_radius_le`, **`not_forall_survives`**: this holds for small grids, and not for all.
-/

namespace TPC.Analytics

open Vtk Fold Segment
open Arith hiding max

/-! ## Errors -/

/-- How far a point may be from its exact position. -/
noncomputable def roundingError (p : ℝ × ℝ) : ℝ := 2⁻¹ ^ 51 * hypot p.1 p.2

/-- A point of the layer as it is read back. -/
def Near (p : ℝ × ℝ) (q : CartesianPoint ℝ) : Prop := |q.x - p.1| ≤ roundingError p ∧ |q.y - p.2| ≤ roundingError p

theorem roundingError_nonneg (p : ℝ × ℝ) : 0 ≤ roundingError p :=
  mul_nonneg (by positivity) (Real.sqrt_nonneg _)

theorem hypot_le_hypot {p q : ℝ × ℝ} (h₁ : |p.1| ≤ |q.1|) (h₂ : |p.2| ≤ |q.2|) :
    hypot p.1 p.2 ≤ hypot q.1 q.2 :=
  Real.sqrt_le_sqrt (add_le_add (sq_le_sq.mpr h₁) (sq_le_sq.mpr h₂))

theorem hypot_le_of_inDisc {radius : ℝ} (hr : 0 ≤ radius) {p : ℝ × ℝ} (h : InDisc radius p) :
    hypot p.1 p.2 ≤ radius := Real.sqrt_le_iff.mpr ⟨hr, h⟩

/-- Two numbers next to `y` that are `d` apart: one of them is not much smaller than `y`. -/
theorem le_max_abs {y u v δ : ℝ} (hu : |u - y| ≤ δ) (hv : |v - y| ≤ δ) : |y| - δ + |u - v| ≤ max |u| |v| := by
  have hu' := abs_le.mp hu
  have hv' := abs_le.mp hv
  rcases le_total 0 y with hy | hy
  · rcases le_total u v with huv | huv
    · rw [abs_of_nonneg hy, abs_of_nonpos (sub_nonpos.mpr huv)]
      refine le_trans ?_ ((le_abs_self v).trans (le_max_right _ _))
      linarith [hu'.1]
    · rw [abs_of_nonneg hy, abs_of_nonneg (sub_nonneg.mpr huv)]
      refine le_trans ?_ ((le_abs_self u).trans (le_max_left _ _))
      linarith [hv'.1]
  · rcases le_total u v with huv | huv
    · rw [abs_of_nonpos hy, abs_of_nonpos (sub_nonpos.mpr huv)]
      refine le_trans ?_ ((neg_le_abs u).trans (le_max_left _ _))
      linarith [hv'.2]
    · rw [abs_of_nonpos hy, abs_of_nonneg (sub_nonneg.mpr huv)]
      refine le_trans ?_ ((neg_le_abs v).trans (le_max_right _ _))
      linarith [hu'.2]

theorem tolerance_real : 64 * (epsilon : ℝ) = 2⁻¹ ^ 46 := by
  rw [epsilon_real]
  norm_num

/-- **Two points of a row** look level, if they do when they are moved in opposite directions. -/
theorem approximatelyEqual_of_near {y u v δ : ℝ} (hδ : 2 * δ ≤ 64 * epsilon * max 1 (|y| + δ))
    (hu : |u - y| ≤ δ) (hv : |v - y| ≤ δ) : approximatelyEqual u v := by
  have hc : 64 * (epsilon : ℝ) ≤ 1 := by
    rw [tolerance_real]
    norm_num
  have hpos := epsilon_pos
  have hdist : |u - v| ≤ 2 * δ := by
    have htri := abs_sub_le u y v
    rw [abs_sub_comm y v] at htri
    linarith
  have hlarge := le_max_abs hu hv
  have hM : max |u| |v| ≤ max (max 1 |u|) |v| := max_le_max (le_max_right _ _) le_rfl
  have hM₁ : 1 ≤ max (max 1 |u|) |v| := (le_max_left _ _).trans (le_max_left _ _)
  rw [approximatelyEqual_iff]
  generalize max (max 1 |u|) |v| = M at hM hM₁
  rcases le_total (|y| + δ) 1 with hy | hy
  · rw [max_eq_left hy] at hδ
    have := mul_le_mul_of_nonneg_left hM₁ (by positivity : 0 ≤ 64 * (epsilon : ℝ))
    linarith
  · rw [max_eq_right hy] at hδ
    have hle : |y| + δ - 2 * δ + |u - v| ≤ M := by linarith
    have := mul_le_mul_of_nonneg_left hle (by positivity : 0 ≤ 64 * (epsilon : ℝ))
    nlinarith [mul_nonneg (sub_nonneg.mpr hc) (sub_nonneg.mpr hdist)]

/-- **Points of two rows** look apart. -/
theorem not_approximatelyEqual_of_near {radius step y y' u v : ℝ} (hr : 1 ≤ radius)
    (hstep : 2⁻¹ ^ 40 * radius < step) (hy : |y| ≤ radius) (hy' : |y'| ≤ radius) (hup : y + step ≤ y')
    (hu : |u - y| ≤ 2⁻¹ ^ 51 * radius) (hv : |v - y'| ≤ 2⁻¹ ^ 51 * radius) : ¬ approximatelyEqual v u := by
  have hu' := abs_le.mp hu
  have hv' := abs_le.mp hv
  have hbound : ∀ {a b : ℝ}, |a| ≤ radius → |b - a| ≤ 2⁻¹ ^ 51 * radius → |b| ≤ 2 * radius := by
    intro a b ha hb
    have htri := abs_add_le a (b - a)
    rw [add_sub_cancel] at htri
    have : (2⁻¹ : ℝ) ^ 51 * radius ≤ radius := by
      refine mul_le_of_le_one_left (by linarith) ?_
      norm_num
    linarith
  refine not_approximatelyEqual (R := 2 * radius) (s := step - 2⁻¹ ^ 50 * radius) (hbound hy' hv) (hbound hy hu) ?_ ?_
  · rw [max_eq_right (by linarith), tolerance_real]
    norm_num at hstep ⊢
    linarith
  · refine le_trans ?_ (le_abs_self _)
    norm_num at hu' hv' ⊢
    linarith [hu'.2, hv'.1]

/-! ## Detection -/

section Detection

variable {α : Type} {R : α → CartesianPoint ℝ → Prop} {rows : List (List α)}
  {rows' : List (List (CartesianPoint ℝ))}

theorem exists_mem_of_forall₂ {row : List α} {row' : List (CartesianPoint ℝ)} (h : List.Forall₂ R row row')
    {p' : CartesianPoint ℝ} (hp : p' ∈ row') : ∃ p ∈ row, R p p' := by
  obtain ⟨i, hi, rfl⟩ := List.mem_iff_getElem.mp hp
  exact ⟨_, List.getElem_mem (h.length_eq ▸ hi), h.get (h.length_eq ▸ hi) hi⟩

/-- **Rows are detected from points that are related to theirs**, if related points of a row always look level
and related points of two rows never do. -/
theorem detected_of_forall₂ (h : List.Forall₂ (List.Forall₂ R) rows rows')
    (hin : ∀ row ∈ rows, ∀ f ∈ row.head?, ∀ p ∈ row.tail, ∀ f' p', R f f' → R p p' → approximatelyEqual p'.y f'.y)
    (hout : rows.Pairwise fun row next => ∀ p ∈ row, ∀ q ∈ next, ∀ p' q', R p p' → R q q' →
      ¬ approximatelyEqual q'.y p'.y) : Detected rows' := by
  induction h with
  | nil => trivial
  | @cons row row' rows rows' hrow hrows ih =>
    obtain ⟨hfirst, hrest⟩ := List.pairwise_cons.mp hout
    refine ⟨fun front' hf' => ?_, ih (fun r hr => hin r (List.mem_cons_of_mem _ hr)) hrest⟩
    cases hrow with
    | nil => exact absurd hf' (by simp)
    | @cons front _ tail tail' hfront htail =>
      cases hf'
      refine ⟨fun p' hp' => ?_, fun next' hnext' => ?_⟩
      · obtain ⟨p, hp, hpp'⟩ := exists_mem_of_forall₂ htail hp'
        exact hin _ List.mem_cons_self front rfl p hp _ _ hfront hpp'
      · obtain ⟨r', hr', hmem'⟩ := List.mem_flatten.mp (List.mem_of_mem_head? hnext')
        obtain ⟨i, hi, rfl⟩ := List.mem_iff_getElem.mp hr'
        obtain ⟨q, hq, hqq'⟩ := exists_mem_of_forall₂ (hrows.get (hrows.length_eq ▸ hi) hi) hmem'
        exact hfirst _ (List.getElem_mem _) front List.mem_cons_self q hq _ _ hfront hqq'

theorem level_of_detected (h : Detected rows') {row' : List (CartesianPoint ℝ)} (hrow : row' ∈ rows') :
    ∀ front ∈ row'.head?, ∀ p ∈ row'.tail, approximatelyEqual p.y front.y := by
  induction rows' with
  | nil => exact absurd hrow List.not_mem_nil
  | cons r rows' ih =>
    rcases List.mem_cons.mp hrow with rfl | hrow
    · exact fun front hf => (h.1 front hf).1
    · exact ih h.2 hrow

end Detection

variable {g : Fin 3 → ℕ} {radius : ℝ} {fuel : ℕ} {rows : List (List (ℝ × ℝ))}

/-- The generated rows are found, however each of their points is moved by the rounding. -/
def Survives (rows : List (List (ℝ × ℝ))) : Prop :=
  ∀ layer rest : List (CartesianPoint ℝ), List.Forall₂ Near rows.flatten layer →
    detectRows (layer ++ rest) rows.flatten.length rows.flatten.length 0 = .ok (ranges 0 (nonemptyRows rows))

/-- The distance of a point from the axis is at most 16, or 16 times the height that it can be read back with. -/
def Low (p : ℝ × ℝ) : Prop := hypot p.1 p.2 ≤ 16 * max 1 (|p.2| + roundingError p)

/-- The outer points of every row with two points or more are low. -/
def RowsFit (rows : List (List (ℝ × ℝ))) : Prop :=
  ∀ row ∈ rows, 2 ≤ row.length → ∀ p ∈ row.head?, Low p

/-- All points of the lattice in the disc are low, those with `x = 0` excepted. -/
def Fits (g : Fin 3 → ℕ) (radius : ℝ) : Prop :=
  ∀ j k, InDisc radius (latticePoint g radius j k) → (latticePoint g radius j k).1 ≠ 0 → Low (latticePoint g radius j k)

theorem ranges_of_forall₂ {α β : Type} {R : α → β → Prop} {rows : List (List α)} {rows' : List (List β)}
    (h : List.Forall₂ (List.Forall₂ R) rows rows') (b : ℕ) : ranges b rows' = ranges b rows := by
  induction h generalizing b with
  | nil => rfl
  | cons hrow _ ih => rw [ranges, ranges, hrow.length_eq, ih]

theorem length_flatten_of_forall₂ {α β : Type} {R : α → β → Prop} {rows : List (List α)} {rows' : List (List β)}
    (h : List.Forall₂ (List.Forall₂ R) rows rows') : rows'.flatten.length = rows.flatten.length := by
  induction h with
  | nil => rfl
  | cons hrow _ ih =>
    rw [List.flatten_cons, List.flatten_cons, List.length_append, List.length_append, hrow.length_eq, ih]

theorem detectRows_of_forall₂ {rest : List (CartesianPoint ℝ)} {rows' : List (List (CartesianPoint ℝ))}
    (h : List.Forall₂ (List.Forall₂ Near) (nonemptyRows rows) rows') :
    detectRows (rows'.flatten ++ rest) rows.flatten.length rows.flatten.length 0 =
      .ok (ranges 0 (nonemptyRows rows)) ↔ Detected rows' := by
  have hne : ∀ row' ∈ rows', row' ≠ [] := by
    intro row' hrow' he
    obtain ⟨i, hi, rfl⟩ := List.mem_iff_getElem.mp hrow'
    have hlen := (h.get (h.length_eq ▸ hi) hi).length_eq
    have hpos := (mem_nonemptyRows.mp (List.getElem_mem (h.length_eq ▸ hi))).2
    have he' : rows'.get ⟨i, hi⟩ = [] := he
    rw [he', List.length_nil, List.length_eq_zero_iff] at hlen
    exact hpos hlen
  have hcount : rows'.flatten.length = rows.flatten.length := by
    rw [length_flatten_of_forall₂ h, flatten_nonemptyRows]
  rw [← ranges_of_forall₂ h]
  have hs : Segment (rows'.flatten ++ rest) 0 rows'.flatten := (segment_append.mp (segment_self _)).1
  refine detectRows_eq_iff hne hs (by rw [hcount, Nat.zero_add]) ?_ ?_
  · rw [List.length_append, hcount]
    exact Nat.le_add_right _ _
  · rw [← hcount]
    exact length_le_length_flatten hne

/-- The first of several points is left of the axis. -/
theorem head_neg (h : ClippedLattice g radius rows) {f : ℝ × ℝ} {rest : List (ℝ × ℝ)} (hrow : f :: rest ∈ rows)
    (hlen : 2 ≤ (f :: rest).length) : f.1 < 0 := by
  obtain ⟨q, hq⟩ : ∃ q, q ∈ rest := List.exists_mem_of_length_pos (Nat.lt_of_succ_lt_succ hlen)
  have h₁ := (List.pairwise_cons.mp (h.increasing _ hrow)).1 q hq
  have h₂ := h.abs_le_head hrow (List.mem_cons_of_mem _ hq)
  have := neg_le_abs q.1
  have := le_abs_self q.1
  linarith

theorem Low.mono {p f : ℝ × ℝ} (h : Low f) (hx : |p.1| ≤ |f.1|) (hy : p.2 = f.2) : Low p := by
  have hle : hypot p.1 p.2 ≤ hypot f.1 f.2 := hypot_le_hypot hx (le_of_eq (congrArg _ hy))
  have hmax : max 1 (|f.2| + roundingError f) ≤
      max 1 (|p.2| + roundingError p) + 2⁻¹ ^ 51 * (hypot f.1 f.2 - hypot p.1 p.2) := by
    have hnonneg : 0 ≤ (2⁻¹ : ℝ) ^ 51 * (hypot f.1 f.2 - hypot p.1 p.2) :=
      mul_nonneg (by positivity) (sub_nonneg.mpr hle)
    refine max_le ?_ ?_
    · have := le_max_left 1 (|p.2| + roundingError p)
      linarith
    · have := le_max_right 1 (|p.2| + roundingError p)
      have habs : |f.2| = |p.2| := congrArg _ hy.symm
      have hscale : roundingError f = roundingError p + 2⁻¹ ^ 51 * (hypot f.1 f.2 - hypot p.1 p.2) := by
        unfold roundingError
        ring
      linarith
  unfold Low at h ⊢
  generalize max 1 (|p.2| + roundingError p) = M at hmax ⊢
  generalize max 1 (|f.2| + roundingError f) = N at hmax h
  norm_num at hmax
  linarith

theorem rowsFit_iff (h : ClippedLattice g radius rows) : RowsFit rows ↔ Fits g radius := by
  constructor
  · intro hfit j k hdisc hx
    have hj := h.complete j k hdisc
    have hmem : latticePoint g radius j k ∈ rows[j] :=
      (h.mem_row j _ (List.getElem?_eq_getElem hj) _).mpr ⟨k, rfl, hdisc⟩
    have hrow : rows[j] ∈ rows := List.getElem_mem hj
    obtain ⟨f, rest, he⟩ := List.exists_cons_of_ne_nil (List.ne_nil_of_mem hmem)
    rw [he] at hmem hrow
    -- the point and its mirror image are two points
    have hlen : 2 ≤ (f :: rest).length := by
      refine two_le_length hmem (h.symmetric _ hrow _ hmem) fun heq => hx ?_
      have := congrArg Prod.fst heq
      dsimp only at this
      linarith
    have hlevel : ∀ {p}, p ∈ f :: rest → p.2 = rowY g radius j := fun hp =>
      h.level (List.getElem?_eq_getElem hj) (he ▸ hp)
    have habs := h.abs_le_head hrow hmem
    refine (hfit _ hrow hlen f rfl).mono ?_ ((hlevel hmem).trans (hlevel List.mem_cons_self).symm)
    have := neg_le_abs f.1
    linarith
  · intro hfit row hrow hlen f hf
    obtain ⟨rest, rfl⟩ : ∃ rest, row = f :: rest := ⟨row.tail, (List.eq_cons_of_mem_head? hf)⟩
    obtain ⟨j, hj⟩ := List.mem_iff_getElem?.mp hrow
    obtain ⟨k, hk, hdisc⟩ := (h.mem_row j _ hj f).mp List.mem_cons_self
    have hneg := head_neg h hrow hlen
    rw [hk] at hdisc hneg ⊢
    exact hfit j k hdisc hneg.ne

/-- **Rows that fit are found**, and two rows are never taken for one. -/
theorem survives_of_rowsFit (h : ClippedLattice g radius rows) (hr : 1 ≤ radius)
    (hstep : 2⁻¹ ^ 40 * radius < stepY g radius) (hfits : RowsFit rows) : Survives rows := by
  intro layer rest hnear
  rw [← flatten_nonemptyRows] at hnear
  obtain ⟨rows', rfl, hrows'⟩ := exists_segments_of_forall₂ hnear
  have hr₀ : 0 ≤ radius := by linarith
  have hy : 0 < stepY g radius := lt_of_le_of_lt (by positivity) hstep
  refine (detectRows_of_forall₂ hrows').mpr (detected_of_forall₂ hrows' ?_ ?_)
  · intro row hrow f hf p hp f' p' hff' hpp'
    have hrow' := (mem_nonemptyRows.mp hrow).1
    obtain ⟨rest, rfl⟩ : ∃ rest, row = f :: rest := ⟨row.tail, (List.eq_cons_of_mem_head? hf)⟩
    have hpmem : p ∈ f :: rest := List.mem_cons_of_mem _ hp
    have hlen : 2 ≤ (f :: rest).length := Nat.succ_le_succ (List.length_pos_of_mem hp)
    obtain ⟨j, hj⟩ := List.mem_iff_getElem?.mp hrow'
    have hlevel : p.2 = f.2 := (h.level hj hpmem).trans (h.level hj List.mem_cons_self).symm
    have hle : roundingError p ≤ roundingError f := by
      have habs := h.abs_le_head hrow' hpmem
      refine mul_le_mul_of_nonneg_left (hypot_le_hypot ?_ (le_of_eq (congrArg _ hlevel))) (by positivity)
      have := neg_le_abs f.1
      linarith
    refine approximatelyEqual_of_near (y := f.2) (δ := roundingError f) ?_ ?_ hff'.2
    · have hfit := hfits _ hrow' hlen f rfl
      rw [tolerance_real]
      unfold Low roundingError at hfit
      unfold roundingError
      norm_num at hfit ⊢
      linarith
    · have := hpp'.2
      rw [hlevel] at this
      exact this.trans hle
  · refine (List.Pairwise.filter _ (h.upward hy)).imp_of_mem fun {row next} hrow hnext hup p hp q hq p' q' hpp' hqq' => ?_
    have hdisc := h.inDisc (mem_nonemptyRows.mp hrow).1 hp
    have hdisc' := h.inDisc (mem_nonemptyRows.mp hnext).1 hq
    have herror : ∀ {a : ℝ × ℝ}, InDisc radius a → roundingError a ≤ 2⁻¹ ^ 51 * radius := fun ha =>
      mul_le_mul_of_nonneg_left (hypot_le_of_inDisc hr₀ ha) (by positivity)
    exact not_approximatelyEqual_of_near hr hstep (hdisc.abs_snd_le hr₀) (hdisc'.abs_snd_le hr₀) (hup p hp q hq)
      (hpp'.2.trans (herror hdisc)) (hqq'.2.trans (herror hdisc'))

/-- The left half of the layer is raised and the right half lowered, as far as rounding may do it. -/
noncomputable def push (p : ℝ × ℝ) : CartesianPoint ℝ :=
  ⟨p.1, if p.1 < 0 then p.2 + roundingError p else p.2 - roundingError p, 0⟩

theorem near_push (p : ℝ × ℝ) : Near p (push p) := by
  have hpos := roundingError_nonneg p
  constructor
  · rwa [push, sub_self, abs_zero]
  · rw [push]
    dsimp only
    split_ifs
    · rw [add_sub_cancel_left, abs_of_nonneg hpos]
    · rw [sub_sub_cancel_left, abs_neg, abs_of_nonneg hpos]

/-- **Rows that are found fit**: a row that is too long looks broken after `push`. -/
theorem rowsFit_of_survives (h : ClippedLattice g radius rows) (hs : Survives rows) : RowsFit rows := by
  intro row hrow hlen f hf
  obtain ⟨rest, rfl⟩ : ∃ rest, row = f :: rest := ⟨row.tail, (List.eq_cons_of_mem_head? hf)⟩
  have hpushed : List.Forall₂ (List.Forall₂ Near) (nonemptyRows rows) ((nonemptyRows rows).map (List.map push)) :=
    List.forall₂_map_right_iff.mpr (List.forall₂_same.mpr fun r _ =>
      List.forall₂_map_right_iff.mpr (List.forall₂_same.mpr fun p _ => near_push p))
  have hnear : List.Forall₂ Near rows.flatten ((nonemptyRows rows).map (List.map push)).flatten := by
    rw [← flatten_nonemptyRows, ← List.map_flatten]
    exact List.forall₂_map_right_iff.mpr (List.forall₂_same.mpr fun p _ => near_push p)
  have hdetected := (detectRows_of_forall₂ hpushed).mp (hs _ [] hnear)
  have hmem : (f :: rest).map push ∈ (nonemptyRows rows).map (List.map push) :=
    List.mem_map_of_mem (mem_nonemptyRows.mpr ⟨hrow, List.cons_ne_nil _ _⟩)
  -- the mirror image of the first point is another point of the row
  have hneg := head_neg h hrow hlen
  have hmirror : (-f.1, f.2) ∈ rest := by
    rcases List.mem_cons.mp (h.symmetric _ hrow f List.mem_cons_self) with he | hr
    · have hx : -f.1 = f.1 := congrArg Prod.fst he
      linarith
    · exact hr
  have hlevel := level_of_detected hdetected hmem (push f) rfl (push (-f.1, f.2))
    (List.mem_map_of_mem hmirror)
  have herror : roundingError (-f.1, f.2) = roundingError f := by
    rw [roundingError, roundingError, hypot_real, hypot_real, neg_sq]
  have hpos := roundingError_nonneg f
  rw [push, push, approximatelyEqual_iff, tolerance_real] at hlevel
  dsimp only at hlevel
  rw [if_neg (not_lt.mpr (neg_nonneg.mpr hneg.le)), if_pos hneg, herror, abs_sub_comm, add_sub_sub_cancel,
    abs_of_nonneg (add_nonneg hpos hpos)] at hlevel
  have hmax : max (max 1 |f.2 - roundingError f|) |f.2 + roundingError f| ≤ max 1 (|f.2| + roundingError f) := by
    have h₁ := abs_sub f.2 (roundingError f)
    have h₂ := abs_add_le f.2 (roundingError f)
    rw [abs_of_nonneg hpos] at h₁ h₂
    exact max_le (max_le (le_max_left _ _) (h₁.trans (le_max_right _ _))) (h₂.trans (le_max_right _ _))
  have hscaled := mul_le_mul_of_nonneg_left hmax (by positivity : (0 : ℝ) ≤ 2⁻¹ ^ 46)
  have hall := hlevel.trans hscaled
  unfold Low
  generalize max 1 (|f.2| + roundingError f) = M at hall ⊢
  unfold roundingError at hall
  norm_num at hall
  linarith

theorem fits_of_radius_le (hr : 0 ≤ radius) (hr' : radius ≤ 16) : Fits g radius := by
  intro j k hdisc _
  have hle := (hypot_le_of_inDisc hr hdisc).trans hr'
  have hmax := le_max_left 1 (|(latticePoint g radius j k).2| + roundingError (latticePoint g radius j k))
  unfold Low
  linarith

/-- **When the generated rows survive the rounding.** -/
theorem survives_iff_fits (hg₀ : 2 ≤ g 0) (hg₁ : 2 ≤ g 1) (hr : 1 ≤ radius)
    (hstep : 2⁻¹ ^ 40 * radius < stepY g radius) (hrows : layerRows fuel g radius = some rows) :
    Survives rows ↔ Fits g radius := by
  have h := clippedLattice_of_layerRows hg₀ hg₁ (by linarith) hrows
  rw [← rowsFit_iff h]
  exact ⟨rowsFit_of_survives h, survives_of_rowsFit h hr hstep⟩

/-- The coarsest grid of the unit disc survives. -/
theorem survives_iff_fits_unit :
    ∃ fuel rows, layerRows fuel (fun _ => 2) (1 : ℝ) = some rows ∧ Survives rows := by
  obtain ⟨fuel, hfuel⟩ := exists_enoughFuel (g := fun _ => 2) le_rfl le_rfl one_pos
  obtain ⟨_, _, _, _, hrows⟩ := layerRows_real (g := fun _ => 2) le_rfl le_rfl one_pos (hfuel fuel le_rfl)
  refine ⟨fuel, _, hrows, (survives_iff_fits le_rfl le_rfl le_rfl ?_ hrows).mpr
    (fits_of_radius_le zero_le_one (by norm_num))⟩
  have h₃ : (1 : ℝ) ≤ √3 := Real.one_le_sqrt.mpr (by norm_num)
  rw [stepY, sqrt_real]
  norm_num
  linarith

/-- The row just above the middle of a disc of radius 64 is at least 64 wide, and less than 1 above the axis. -/
theorem exists_latticePoint_eq : ∃ y : ℝ, 0 ≤ y ∧ y ≤ 0.97 ∧ latticePoint ![2, 7, 2] 64 7 1 = (32, y) := by
  have h₃ : √3 ^ 2 = (3 : ℝ) := Real.sq_sqrt (by norm_num)
  have hpos : (0 : ℝ) ≤ √3 := Real.sqrt_nonneg 3
  have hlow : 12 / 7 ≤ √3 := by nlinarith
  have hhigh : √3 ≤ 1.74 := by nlinarith
  refine ⟨64 * (7 * √3 / 12 - 1), by linarith, by linarith, ?_⟩
  ext
  · norm_num [latticePoint, stepX]
  · norm_num [latticePoint, stepY, sqrt_real]
    ring

theorem not_low {y : ℝ} (hy₀ : 0 ≤ y) (hy₁ : y ≤ 0.97) : ¬ Low (32, y) := by
  have hfar : 32 ≤ hypot 32 y := Real.le_sqrt_of_sq_le (by nlinarith [sq_nonneg y])
  have hnear : hypot 32 y ≤ 64 := Real.sqrt_le_iff.mpr ⟨by norm_num, by nlinarith⟩
  have hmax : max 1 (|y| + roundingError (32, y)) ≤ 1 := by
    refine max_le le_rfl ?_
    rw [abs_of_nonneg hy₀, roundingError]
    norm_num
    linarith
  intro h
  have h' : hypot 32 y ≤ 16 * max 1 (|y| + roundingError (32, y)) := h
  linarith

/-- **Rows of large grids break**: two points on one row are taken for points of two. The errors that doubles
really make suffice on a finer grid: with `nx = 7`, `ny = 13` and a radius of 64, the row at `y = 0.66` is
read back with ends `1.4e-14` apart, and split. -/
theorem not_forall_survives : ¬ ∀ (g : Fin 3 → ℕ) (radius : ℝ) (fuel : ℕ) (rows : List (List (ℝ × ℝ))),
    2 ≤ g 0 → 2 ≤ g 1 → 1 ≤ radius → 2⁻¹ ^ 40 * radius < stepY g radius →
    layerRows fuel g radius = some rows → Survives rows := by
  intro h
  have hg₀ : 2 ≤ (![2, 7, 2] : Fin 3 → ℕ) 0 := by decide
  have hg₁ : 2 ≤ (![2, 7, 2] : Fin 3 → ℕ) 1 := by decide
  have hr : (0 : ℝ) < 64 := by norm_num
  obtain ⟨fuel, hfuel⟩ := exists_enoughFuel hg₀ hg₁ hr
  obtain ⟨_, _, _, _, hrows⟩ := layerRows_real hg₀ hg₁ hr (hfuel fuel le_rfl)
  have hstep : (2⁻¹ : ℝ) ^ 40 * 64 < stepY ![2, 7, 2] 64 := by
    have h₃ : (1 : ℝ) ≤ √3 := Real.one_le_sqrt.mpr (by norm_num)
    norm_num [stepY, sqrt_real]
    linarith
  have hlattice := clippedLattice_of_layerRows hg₀ hg₁ hr hrows
  have hfits := (rowsFit_iff hlattice).mp (rowsFit_of_survives hlattice
    (h _ 64 fuel _ hg₀ hg₁ (by norm_num) hstep hrows))
  obtain ⟨y, hy₀, hy₁, hpoint⟩ := exists_latticePoint_eq
  have hlow := hfits 7 1
  rw [hpoint] at hlow
  refine not_low hy₀ hy₁ (hlow ?_ (by norm_num))
  unfold InDisc
  nlinarith

end TPC.Analytics
