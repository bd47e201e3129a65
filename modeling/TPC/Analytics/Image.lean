import TPC.Analytics.Manager

/-!
# The image of a slice

The loops of `evaluate_field_slice` over rows and columns are one loop over the pixels in row-major order, and
each pixel writes its own three field entries and its own mask entry, or nothing.

* `vectorAt`: the mode sums at a Cartesian point, rotated through a given angle;
* `pixelPosition`, `pixelValue`: where a pixel is, and what it holds, if anything;
* `slicePixel_eq`: what one pixel does to the buffers;
* `visit`, `foldlM_sliceRow`, `visit_eq`, `foldlM_visit`: the loops;
* `AcceptsSlice`, **`evaluateFieldSlice_eq_ok`**: the slices that are evaluated, and their buffers.
-/

namespace TPC.Analytics.AnalyticsManager

open Arith Fold

variable {F : Type} [Arith F]

/-- The mode sums at a point with angle `phi`, as a Cartesian vector. -/
def vectorAt (m : AnalyticsManager F) (phi : F) (p : F × F × F) : Call (F × F × F) := do
  let b ← m.modeSumAt (toArray (hypot p.1 p.2.1, phi, p.2.2))
  return (b 0 * cos phi - b 1 * sin phi, b 0 * sin phi + b 1 * cos phi, b 2)

theorem vectorAt_eq_ok {m : AnalyticsManager F} {phi : F} {p : F × F × F} {v : F × F × F} :
    m.vectorAt phi p = .ok v ↔ ∃ b, m.modeSumAt (toArray (hypot p.1 p.2.1, phi, p.2.2)) = .ok b ∧
      (b 0 * cos phi - b 1 * sin phi, b 0 * sin phi + b 1 * cos phi, b 2) = v := by
  rw [vectorAt, bind_eq_ok]
  exact exists_congr fun b => and_congr_right fun _ =>
    ⟨fun h => Except.ok.inj h, fun h => congrArg Except.ok h⟩

/-- The position of a pixel. -/
def pixelPosition (direction : SliceDirection) (coordinate : F) (grid : Fin 2 → ℕ)
    (bounds : (F × F) × (F × F)) (row column : ℕ) : F × F × F :=
  slicePosition direction coordinate (pixelU bounds.1 (grid 0) column) (pixelV bounds.2 (grid 1) row)

/-- The vector of a pixel, if it is in the cylinder. -/
def pixelValue (m : AnalyticsManager F) (radius : F) (p : F × F × F) : Call (Option (F × F × F)) :=
  if radius * radius < p.1 * p.1 + p.2.1 * p.2.1 then return none
  else do
    let v ← m.vectorAt (slicePhi p.1 p.2.1) p
    return some v

theorem pixelValue_eq_ok {m : AnalyticsManager F} {radius : F} {p : F × F × F} {v : Option (F × F × F)} :
    m.pixelValue radius p = .ok v ↔
      (radius * radius < p.1 * p.1 + p.2.1 * p.2.1 ∧ v = none) ∨
      (¬ radius * radius < p.1 * p.1 + p.2.1 * p.2.1 ∧
        ∃ w, m.vectorAt (slicePhi p.1 p.2.1) p = .ok w ∧ v = some w) := by
  unfold pixelValue
  by_cases hout : radius * radius < p.1 * p.1 + p.2.1 * p.2.1
  · rw [if_pos hout]
    exact ⟨fun h => .inl ⟨hout, (Except.ok.inj h).symm⟩, fun h => h.elim (fun h => congrArg Except.ok h.2.symm)
      fun h => absurd hout h.1⟩
  · rw [if_neg hout, bind_eq_ok]
    constructor
    · rintro ⟨w, hw, h⟩
      exact .inr ⟨hout, w, hw, (Except.ok.inj h).symm⟩
    · rintro (h | ⟨-, w, hw, rfl⟩)
      · exact absurd h.1 hout
      · exact ⟨w, hw, rfl⟩

theorem pixelValue_eq_error {m : AnalyticsManager F} {radius : F} {p : F × F × F} {e : Exit}
    (h : m.pixelValue radius p = .error e) : ∃ c, m.modeSumAt c = .error e := by
  unfold pixelValue vectorAt at h
  by_cases hout : radius * radius < p.1 * p.1 + p.2.1 * p.2.1
  · rw [if_pos hout] at h
    cases h
  · rw [if_neg hout] at h
    cases hv : m.modeSumAt (toArray (hypot p.1 p.2.1, slicePhi p.1 p.2.1, p.2.2)) with
    | error e' =>
      rw [hv] at h
      cases h
      exact ⟨_, hv⟩
    | ok b =>
      rw [hv] at h
      cases h

/-! ## One pixel -/

section Pixel

variable {m : AnalyticsManager F} {radius : F}

/-- The field and mask buffers of a list of pixels, each with its mask entry. -/
def pixelBuffers (L : List ((F × F × F) × ℕ)) : List F × List ℕ := (flat (L.map Prod.fst), L.map Prod.snd)

omit [Arith F] in
theorem pixelBuffers_set (L : List ((F × F × F) × ℕ)) (i : ℕ) (v : F × F × F) :
    pixelBuffers (L.set i (v, 1)) = ((((flat (L.map Prod.fst)).set (i * 3) v.1).set (i * 3 + 1) v.2.1).set
      (i * 3 + 2) v.2.2, (L.map Prod.snd).set i 1) := by
  rw [pixelBuffers, List.map_set, List.map_set, flat_set]

omit [Arith F] in
theorem exists_pixelBuffers {n : ℕ} {buffers : List F × List ℕ} (h₁ : buffers.1.length = n * 3)
    (h₂ : buffers.2.length = n) : ∃ L : List ((F × F × F) × ℕ), L.length = n ∧ pixelBuffers L = buffers := by
  obtain ⟨bs, hlen, hbs⟩ := exists_flat n _ h₁
  have hle : bs.length = buffers.2.length := hlen.trans h₂.symm
  refine ⟨bs.zip buffers.2, by rw [List.length_zip, hle, min_self, h₂], ?_⟩
  rw [pixelBuffers, List.map_fst_zip hle.le, List.map_snd_zip hle.ge, hbs]

/-- **A pixel writes its own entries**, or nothing. -/
theorem slicePixel_eq {width row column : ℕ} {p : F × F × F} {L : List ((F × F × F) × ℕ)}
    (hpixel : row * width + column < L.length) (hsize : L.length * 3 ≤ sizeMax) :
    m.slicePixel width radius p row column (pixelBuffers L) = m.pixelValue radius p >>= fun v =>
      .ok (pixelBuffers (put L (row * width + column) (v.map (·, 1)))) := by
  have h₁ : wrap (wrap (row * width) + column) = row * width + column := by
    rw [wrap_of_le (n := row * width) (by omega), wrap_of_le (by omega)]
  generalize row * width + column = i at h₁ hpixel
  have h₂ : wrap (i * kDimension) = i * 3 := wrap_of_le (by unfold kDimension; omega)
  have h₃ : wrap (i * 3 + 1) = i * 3 + 1 := wrap_of_le (by omega)
  have h₄ : wrap (i * 3 + 2) = i * 3 + 2 := wrap_of_le (by omega)
  have hfield : (flat (L.map Prod.fst)).length = L.length * 3 := by rw [length_flat, List.length_map]
  unfold slicePixel pixelValue vectorAt
  split_ifs with hout
  · rfl
  simp only [h₁, h₂, h₃, h₄]
  cases m.modeSumAt (toArray (hypot p.1 p.2.1, slicePhi p.1 p.2.1, p.2.2)) with
  | error e => rfl
  | ok b =>
    simp only [ok_bind, pixelBuffers]
    rw [writeAt_of_lt (by omega), ok_bind, writeAt_of_lt (by rw [List.length_set]; omega), ok_bind,
      writeAt_of_lt (by rw [List.length_set, List.length_set]; omega), ok_bind,
      writeAt_of_lt (by rw [List.length_map]; exact hpixel), ok_bind]
    let v := Vtk.toVector (hypot p.1 p.2.1, slicePhi p.1 p.2.1, p.2.2) (b 0, b 1, b 2)
    exact congrArg Except.ok (pixelBuffers_set L i v).symm

end Pixel

/-! ## All pixels -/

section Image

variable {m : AnalyticsManager F} {direction : SliceDirection} {coordinate radius zLength : F} {grid : Fin 2 → ℕ}
  {bounds : (F × F) × (F × F)} {stopRequested : ℕ → Bool} {slice : FieldSlice F}

/-- What pixel `i` of the image holds. -/
def imageAt (m : AnalyticsManager F) (direction : SliceDirection) (coordinate radius : F) (grid : Fin 2 → ℕ)
    (bounds : (F × F) × (F × F)) (i : ℕ) : Call (Option (F × F × F)) :=
  m.pixelValue radius (pixelPosition direction coordinate grid bounds (i / grid 0) (i % grid 0))

/-- A blank pixel, or a valid one. -/
def pixelEntry (v : Option (F × F × F)) : (F × F × F) × ℕ := (v.map (·, 1)).getD ((0, 0, 0), 0)

/-- The step of the loops at pixel `i`. -/
def visit (m : AnalyticsManager F) (direction : SliceDirection) (coordinate radius : F) (grid : Fin 2 → ℕ)
    (bounds : (F × F) × (F × F)) (buffers : List F × List ℕ) (i : ℕ) : Call (List F × List ℕ) :=
  m.slicePixel (grid 0) radius (pixelPosition direction coordinate grid bounds (i / grid 0) (i % grid 0))
    (i / grid 0) (i % grid 0) buffers

/-- **The loops visit every pixel once, in row-major order**, unless they are stopped. -/
theorem foldlM_sliceRow (hstop : ∀ row < grid 1, stopRequested row = false) (buffers : List F × List ℕ) :
    (List.range (grid 1)).foldlM (m.sliceRow direction coordinate radius grid bounds stopRequested) buffers =
      (List.range (grid 0 * grid 1)).foldlM (m.visit direction coordinate radius grid bounds) buffers := by
  have hrows : ∀ row ∈ List.range (grid 1), ∀ buffers,
      m.sliceRow direction coordinate radius grid bounds stopRequested buffers row =
        (List.range (grid 0)).foldlM (fun buffers column => m.slicePixel (grid 0) radius
          (pixelPosition direction coordinate grid bounds row column) row column buffers) buffers := by
    intro row hrow buffers
    rw [sliceRow, hstop row (List.mem_range.mp hrow), if_neg Bool.false_ne_true]
    rfl
  rw [foldlM_congr hrows, foldlM_range_mul (fun buffers row column => m.slicePixel (grid 0) radius
    (pixelPosition direction coordinate grid bounds row column) row column buffers), Nat.mul_comm (grid 1)]
  rfl

/-- **A visit writes its own pixel**, or nothing. -/
theorem visit_eq (hsize : grid 0 * grid 1 * 3 ≤ sizeMax) {L : List ((F × F × F) × ℕ)}
    (hL : L.length = grid 0 * grid 1) {i : ℕ} (hi : i < grid 0 * grid 1) :
    m.visit direction coordinate radius grid bounds (pixelBuffers L) i =
      m.imageAt direction coordinate radius grid bounds i >>= fun v =>
        .ok (pixelBuffers (put L i (v.map (·, 1)))) := by
  have hindex : i / grid 0 * grid 0 + i % grid 0 = i := Nat.div_add_mod' i (grid 0)
  rw [visit, slicePixel_eq (by rw [hindex, hL]; exact hi) (by rw [hL]; exact hsize), hindex]
  rfl

theorem foldlM_visit (hsize : grid 0 * grid 1 * 3 ≤ sizeMax) :
    (List.range (grid 0 * grid 1)).foldlM (m.visit direction coordinate radius grid bounds)
        (pixelBuffers (List.replicate (grid 0 * grid 1) ((0, 0, 0), 0))) =
      (List.range (grid 0 * grid 1)).mapM (m.imageAt direction coordinate radius grid bounds) >>= fun vs =>
        .ok (pixelBuffers (vs.map pixelEntry)) := by
  rw [foldlM_fill pixelBuffers _ (m.imageAt direction coordinate radius grid bounds) (Option.map (·, 1))
    (fun L i hL hi => visit_eq hsize hL hi) le_rfl List.length_replicate]
  cases hvs : (List.range (grid 0 * grid 1)).mapM (m.imageAt direction coordinate radius grid bounds) with
  | error e => rfl
  | ok vs =>
    have hlen := (mapM_eq_ok.mp hvs).length_eq
    rw [List.length_range, ← List.length_map (Option.map fun v : F × F × F => (v, 1))] at hlen
    simp only [ok_bind]
    rw [hlen, fill_replicate, List.map_map]
    rfl

theorem not_stopped {s s' : List F × List ℕ} (h : (List.range (grid 1)).foldlM
    (m.sliceRow direction coordinate radius grid bounds stopRequested) s = .ok s') :
    ∀ row < grid 1, stopRequested row = false := by
  have hall : ∀ row ∈ List.range (grid 1), stopRequested row = false := by
    refine foldlM_inv (fun done _ => ∀ row ∈ done, stopRequested row = false) ?_ (fun _ h => nomatch h) h
    intro done row _ b b' _ hdone hs
    unfold sliceRow at hs
    rw [List.forall_mem_append, List.forall_mem_singleton]
    exact ⟨hdone, Bool.eq_false_iff.mpr (ite_error_eq_ok.mp hs).1⟩
  exact fun row hrow => hall row (List.mem_range.mpr hrow)

/-- The checks of `evaluate_field_slice`. -/
structure AcceptsSlice (m : AnalyticsManager F) (direction : SliceDirection) (coordinate : F) (grid : Fin 2 → ℕ)
    (radius zLength : F) : Prop where
  dims : ∀ i, 2 ≤ grid i
  positive : ¬ (radius ≤ 0 ∨ zLength ≤ 0)
  inside : ¬ ((direction = .z ∧ zLength * 0.5 < abs coordinate) ∨ (direction ≠ .z ∧ radius < abs coordinate))
  coefficients : ¬ m.coefficientsMissing
  size : grid 0 * grid 1 * 3 ≤ vectorMax

/-- The result of a loop that has computed the pixels `vs`. -/
def image (direction : SliceDirection) (coordinate : F) (grid : Fin 2 → ℕ) (radius zLength : F)
    (vs : List (Option (F × F × F))) : FieldSlice F where
  direction := direction
  coordinate := coordinate
  grid := grid
  horizontalBounds := (sliceBounds direction coordinate radius zLength).1
  verticalBounds := (sliceBounds direction coordinate radius zLength).2
  field := (pixelBuffers (vs.map pixelEntry)).1
  valid := (pixelBuffers (vs.map pixelEntry)).2

theorem pixelBuffers_replicate (n : ℕ) : pixelBuffers (List.replicate n (((0 : F), (0 : F), (0 : F)), 0)) =
    (resize (n * 3) [], List.replicate n 0) := by
  rw [pixelBuffers, List.map_replicate, List.map_replicate, flat_replicate, resize, List.take_nil, List.nil_append]
  rfl

theorem acceptsSlice_of_ok
    (h : m.evaluateFieldSlice direction coordinate grid radius zLength stopRequested = .ok slice) :
    m.AcceptsSlice direction coordinate grid radius zLength := by
  unfold evaluateFieldSlice at h
  dsimp only at h
  split_ifs at h with h₁ h₂ h₃ h₄ h₅ h₆ h₇
  have hgrid : grid 0 * grid 1 ≤ sizeMax := (Nat.le_div_iff_mul_le (by omega)).mp (Nat.not_lt.mp h₅)
  rw [wrap_of_le hgrid] at h₆ h₇
  have hsize : grid 0 * grid 1 * 3 ≤ sizeMax := (Nat.le_div_iff_mul_le (by decide)).mp (Nat.not_lt.mp h₆)
  unfold kDimension at h₇
  rw [wrap_of_le hsize] at h₇
  refine ⟨fun i => ?_, h₂, h₃, h₄, Nat.not_lt.mp h₇⟩
  fin_cases i
  · exact Nat.not_lt.mp (not_or.mp h₁).1
  · exact Nat.not_lt.mp (not_or.mp h₁).2

theorem evaluateFieldSlice_of_accepts (h : m.AcceptsSlice direction coordinate grid radius zLength) :
    m.evaluateFieldSlice direction coordinate grid radius zLength stopRequested =
      (List.range (grid 1)).foldlM (m.sliceRow direction coordinate radius grid
          (sliceBounds direction coordinate radius zLength) stopRequested)
        (pixelBuffers (List.replicate (grid 0 * grid 1) ((0, 0, 0), 0))) >>= fun buffers =>
      .ok ⟨direction, coordinate, grid, (sliceBounds direction coordinate radius zLength).1,
        (sliceBounds direction coordinate radius zLength).2, buffers.1, buffers.2⟩ := by
  have h₀ := h.dims 0
  have h₁ := h.dims 1
  have hsize : grid 0 * grid 1 * 3 ≤ sizeMax := h.size.trans vectorMax_le_sizeMax
  have hgrid : grid 0 * grid 1 ≤ sizeMax := by omega
  have h₅ : ¬ sizeMax / grid 1 < grid 0 := Nat.not_lt.mpr ((Nat.le_div_iff_mul_le (by omega)).mpr hgrid)
  have h₆ : ¬ sizeMax / kDimension < grid 0 * grid 1 :=
    Nat.not_lt.mpr ((Nat.le_div_iff_mul_le (by decide)).mpr hsize)
  unfold evaluateFieldSlice
  rw [if_neg (by omega), if_neg h.positive, if_neg h.inside, if_neg h.coefficients, if_neg h₅]
  dsimp only
  rw [wrap_of_le hgrid, if_neg h₆, kDimension, wrap_of_le hsize, if_neg (Nat.not_lt.mpr h.size),
    pixelBuffers_replicate]
  rfl

/-- **The slices that are evaluated**, and what is in them. -/
theorem evaluateFieldSlice_eq_ok :
    m.evaluateFieldSlice direction coordinate grid radius zLength stopRequested = .ok slice ↔
      m.AcceptsSlice direction coordinate grid radius zLength ∧ (∀ row < grid 1, stopRequested row = false) ∧
        ∃ vs, List.Forall₂ (fun i v => m.imageAt direction coordinate radius grid
            (sliceBounds direction coordinate radius zLength) i = .ok v) (List.range (grid 0 * grid 1)) vs ∧
          slice = image direction coordinate grid radius zLength vs := by
  constructor
  · intro h
    have ha := acceptsSlice_of_ok h
    rw [evaluateFieldSlice_of_accepts ha] at h
    obtain ⟨buffers, hb, h⟩ := bind_eq_ok.mp h
    have hstop := not_stopped hb
    rw [foldlM_sliceRow hstop, foldlM_visit (ha.size.trans vectorMax_le_sizeMax)] at hb
    obtain ⟨vs, hvs, hb⟩ := bind_eq_ok.mp hb
    cases hb
    cases h
    exact ⟨ha, hstop, vs, mapM_eq_ok.mp hvs, rfl⟩
  · rintro ⟨ha, hstop, vs, hvs, rfl⟩
    rw [evaluateFieldSlice_of_accepts ha, foldlM_sliceRow hstop, foldlM_visit (ha.size.trans vectorMax_le_sizeMax),
      mapM_eq_ok.mpr hvs]
    rfl

theorem exists_pixel {vs : List (Option (F × F × F))}
    (hvs : List.Forall₂ (fun i v => m.imageAt direction coordinate radius grid bounds i = .ok v)
      (List.range (grid 0 * grid 1)) vs) {row column : ℕ} (hr : row < grid 1) (hc : column < grid 0) :
    ∃ v, vs[row * grid 0 + column]? = some v ∧
      m.pixelValue radius (pixelPosition direction coordinate grid bounds row column) = .ok v := by
  have hpixel : row * grid 0 + column < grid 0 * grid 1 := mul_add_lt_mul hr hc
  have hw : 0 < grid 0 := by omega
  have hlen := hvs.length_eq
  rw [List.length_range] at hlen
  obtain ⟨v, hv⟩ : ∃ v, vs[row * grid 0 + column]? = some v := ⟨_, List.getElem?_eq_getElem (by omega)⟩
  have himage := forall₂_getElem? hvs (List.getElem?_range hpixel) hv
  refine ⟨v, hv, ?_⟩
  rwa [imageAt, Nat.mul_comm row, Nat.mul_add_div hw, Nat.div_eq_of_lt hc, Nat.add_zero, Nat.mul_add_mod,
    Nat.mod_eq_of_lt hc] at himage

end Image

end TPC.Analytics.AnalyticsManager
