import TPC.Analytics.Coherence
import TPC.Analytics.Image

/-!
# Evaluation stays inside the basis

No evaluation loop counts the basis functions. What keeps them inside the collection is the state:
coefficients are stored only by a `solve_svd` that has counted three functions and called each one.

* `WellFitted m g`, `Contained`: one coefficient per mode and three functions `g`, or nothing stored;
* `Raises`: an exception that a stored function throws;
* `directSum`, `modeSumAt_eq`: the mode sum of a well-fitted manager, without a lookup;
* `evaluateFieldSlice_exits`, `calculateField_exits`: the exceptions of the two loops;
* `wellFitted_of_solveSvd`, **`Reachable.evaluatesInside`**.
-/

namespace TPC.Analytics.AnalyticsManager

open Arith Fold Prog

variable {F : Type}

/-- Three functions and one coefficient per mode. -/
structure WellFitted (m : AnalyticsManager F) (g : Fin 3 → ℕ → F → F → F → Except Fault F) :
    Prop where
  basis : m.basisCollection.basis = List.ofFn fun i => ⟨some (g i)⟩
  length : m.storedCoefficients.length = m.basisCollection.modes

/-- Nothing is stored, or what is stored fits the basis. -/
def Contained (m : AnalyticsManager F) : Prop :=
  m.storedCoefficients = [] ∨ ∃ g, m.WellFitted g

/-- A stored function throws `f`. -/
def Raises (m : AnalyticsManager F) (f : Fault) : Prop :=
  ∃ g k a b c, (⟨some g⟩ : HeaderFunction F) ∈ m.basisCollection.basis ∧ g k a b c = .error f

/-- An empty vector of coefficients is never taken for a fit: there is at least one mode. -/
theorem coefficientsMissing_of_nil {m : AnalyticsManager F} (h : m.storedCoefficients = []) :
    m.coefficientsMissing := by
  intro hc
  rw [h, List.length_nil, Int.natCast_zero] at hc
  have hne := m.basisCollection.modes_ne
  have hle := m.basisCollection.modes_le
  unfold toIndex at hc
  have hdvd : ((2 ^ 64 : ℕ) : ℤ) ∣ m.basisCollection.modes := Int.dvd_of_bmod_eq_zero hc.symm
  have h64 := Nat.le_of_dvd (Nat.pos_of_ne_zero hne) (Int.natCast_dvd_natCast.mp hdvd)
  unfold sizeMax at hle
  omega

/-- Stored coefficients are only read when they fit the basis. -/
theorem Contained.wellFitted {m : AnalyticsManager F} (h : m.Contained)
    (hc : ¬ m.coefficientsMissing) : ∃ g, m.WellFitted g := by
  rcases h with h | h
  · exact absurd (coefficientsMissing_of_nil h) hc
  · exact h

/-! ## The mode sum without lookups -/

variable [Arith F]

/-- One mode: three calls, in order. -/
def directMode (g : Fin 3 → ℕ → F → F → F → Except Fault F) (c components : Fin 3 → F)
    (p : F × ℕ) : Call (Fin 3 → F) :=
  [0, 1, 2].foldlM (fun components i => do
    let v ← HeaderFunction.call ⟨some (g i)⟩ p.2 (c 0) (c 1) (c 2)
    return Function.update components i (components i + p.1 * v)) components

/-- The sum over the coefficients, each with its mode. -/
def directSum (g : Fin 3 → ℕ → F → F → F → Except Fault F) (coefficients : List F)
    (c : Fin 3 → F) : Call (Fin 3 → F) :=
  coefficients.zipIdx.foldlM (directMode g c) fun _ => 0

namespace WellFitted

variable {m : AnalyticsManager F} {g : Fin 3 → ℕ → F → F → F → Except Fault F}

omit [Arith F] in
theorem readAt_basis (h : m.WellFitted g) (i : Fin 3) :
    readAt m.basisCollection.basis i = .ok ⟨some (g i)⟩ := by
  have hi : (i : ℕ) < m.basisCollection.basis.length := by
    rw [h.basis, List.length_ofFn]
    exact i.isLt
  rw [readAt_of_lt hi]
  simp only [h.basis, List.getElem_ofFn]

omit [Arith F] in
theorem readAt_coefficients (h : m.WellFitted g) {k : ℕ} (hk : k < m.basisCollection.modes) :
    ∃ a, readAt m.storedCoefficients k = .ok a :=
  ⟨_, readAt_of_lt (by rw [h.length]; exact hk)⟩

theorem addMode_eq (h : m.WellFitted g) (c components : Fin 3 → F) {p : F × ℕ}
    (hp : readAt m.storedCoefficients p.2 = .ok p.1) :
    addMode m.basisCollection.basis m.storedCoefficients c components p.2 =
      directMode g c components p := by
  unfold addMode
  rw [hp, ok_bind]
  refine foldlM_congr (fun i _ components => ?_) components
  unfold addTerm
  rw [h.readAt_basis, ok_bind]

/-- **Every lookup of the mode sum succeeds**, and every call is of a function that is there. -/
theorem modeSumAt_eq (h : m.WellFitted g) (c : Fin 3 → F) :
    m.modeSumAt c = directSum g m.storedCoefficients c := by
  have hr : List.range m.basisCollection.modes = m.storedCoefficients.zipIdx.map Prod.snd := by
    rw [← h.length, List.zipIdx_map_snd, List.range_eq_range']
  unfold modeSumAt modeSum directSum
  rw [hr, List.foldlM_map]
  refine foldlM_congr (fun p hp components => h.addMode_eq c components ?_) _
  rw [readAt_eq_ok]
  exact List.mk_mem_zipIdx_iff_getElem?.mp hp

omit [Arith F] in
theorem raises_of_call (h : m.WellFitted g) {i : Fin 3} {k : ℕ} {a b c : F} {e : Exit}
    (he : HeaderFunction.call ⟨some (g i)⟩ k a b c = .error e) :
    ∃ f, e = .exception f ∧ m.Raises f := by
  unfold HeaderFunction.call at he
  dsimp only at he
  split at he
  · cases he
  · next f hf =>
    cases he
    refine ⟨f, rfl, g i, k, a, b, c, ?_, hf⟩
    rw [h.basis]
    exact List.mem_ofFn.mpr ⟨i, rfl⟩

theorem modeSumAt_error (h : m.WellFitted g) {c : Fin 3 → F} {e : Exit}
    (he : m.modeSumAt c = .error e) : ∃ f, e = .exception f ∧ m.Raises f := by
  rw [h.modeSumAt_eq] at he
  obtain ⟨p, -, components, -, he⟩ := foldlM_eq_error (fun _ => True) (fun _ _ _ _ _ _ => trivial)
    trivial he
  obtain ⟨i, -, components, -, he⟩ := foldlM_eq_error (fun _ => True) (fun _ _ _ _ _ _ => trivial)
    trivial he
  cases hv : HeaderFunction.call ⟨some (g i)⟩ p.2 (c 0) (c 1) (c 2) with
  | error e' =>
    rw [hv] at he
    cases he
    exact h.raises_of_call hv
  | ok v =>
    rw [hv] at he
    cases he

theorem origin (h : m.WellFitted g) {f : Fault} (hl : m.Leaves (.exception f)) :
    f = .badAlloc ∨ m.Raises f := by
  rcases hl with ⟨s, hs⟩ | hf | ⟨c, hc⟩
  · cases hs
  · exact .inl (Exit.exception.inj hf)
  · obtain ⟨f', hf', hr⟩ := h.modeSumAt_error hc
    cases hf'
    exact .inr hr

end WellFitted

/-! ## Slices -/

section Slice

variable {m : AnalyticsManager F}

/-- Buffers for `n` pixels. -/
def Sized (n : ℕ) (buffers : List F × List ℕ) : Prop :=
  buffers.1.length = n * 3 ∧ buffers.2.length = n

theorem slicePixel_spec {width row column n : ℕ} {radius : F} {p : F × F × F}
    {buffers : List F × List ℕ} (hb : Sized n buffers) (hpixel : row * width + column < n)
    (hn : n * 3 ≤ sizeMax) :
    (∀ b, m.slicePixel width radius p row column buffers = .ok b → Sized n b) ∧
      ∀ e, m.slicePixel width radius p row column buffers = .error e → m.Leaves e := by
  obtain ⟨L, hL, rfl⟩ := exists_pixelBuffers hb.1 hb.2
  rw [slicePixel_eq (hL ▸ hpixel) (hL ▸ hn)]
  cases hv : m.pixelValue radius p with
  | error e =>
    refine ⟨nofun, fun e' he => ?_⟩
    cases he
    exact .inr (.inr (pixelValue_eq_error hv))
  | ok v =>
    refine ⟨fun b he => ?_, nofun⟩
    cases he
    exact ⟨by rw [pixelBuffers, length_flat, List.length_map, length_put, hL],
      by rw [pixelBuffers, List.length_map, length_put, hL]⟩

theorem sliceRow_spec {direction : SliceDirection} {coordinate radius : F} {grid : Fin 2 → ℕ}
    {bounds : (F × F) × (F × F)} {stopRequested : ℕ → Bool} {row : ℕ}
    {buffers : List F × List ℕ} (hb : Sized (grid 0 * grid 1) buffers) (hrow : row < grid 1)
    (hn : grid 0 * grid 1 * 3 ≤ sizeMax) :
    (∀ b, m.sliceRow direction coordinate radius grid bounds stopRequested buffers row = .ok b →
        Sized (grid 0 * grid 1) b) ∧
      ∀ e, m.sliceRow direction coordinate radius grid bounds stopRequested buffers row =
        .error e → m.Leaves e := by
  have hpixel : ∀ column < grid 0, row * grid 0 + column < grid 0 * grid 1 :=
    fun column hcolumn => mul_add_lt_mul hrow hcolumn
  unfold sliceRow
  split_ifs
  · exact ⟨nofun, fun e he => by cases he; exact .unexpected m _⟩
  refine ⟨fun b he => ?_, fun e he => ?_⟩
  · refine foldlM_inv (fun _ => Sized (grid 0 * grid 1)) ?_ hb he
    intro done column rest b b' hl hi hs
    have hcolumn : column ∈ List.range (grid 0) := by
      rw [hl]
      exact List.mem_append_right _ List.mem_cons_self
    exact (slicePixel_spec hi (hpixel column (List.mem_range.mp hcolumn)) hn).1 b' hs
  · obtain ⟨column, hcolumn, b, hi, hs⟩ := foldlM_eq_error (Sized (grid 0 * grid 1))
      (fun column hcolumn b b' hi hs =>
        (slicePixel_spec hi (hpixel column (List.mem_range.mp hcolumn)) hn).1 b' hs) hb he
    exact (slicePixel_spec hi (hpixel column (List.mem_range.mp hcolumn)) hn).2 e hs

/-- A slice that throws has found coefficients, and throws for want of memory or as a mode sum
does. -/
theorem evaluateFieldSlice_exits {direction : SliceDirection} {coordinate : F}
    {grid : Fin 2 → ℕ} {radius zLength : F} {stopRequested : ℕ → Bool} {f : Fault}
    (h : m.evaluateFieldSlice direction coordinate grid radius zLength stopRequested =
      .error (.exception f)) : ¬ m.coefficientsMissing ∧ m.Leaves (.exception f) := by
  unfold evaluateFieldSlice at h
  dsimp only at h
  split_ifs at h with h₁ h₂ h₃ h₄ h₅ h₆ h₇
  iterate 6 cases h
  · cases h
    exact ⟨h₄, .badAlloc m⟩
  have hle : grid 0 * grid 1 ≤ sizeMax :=
    (Nat.le_div_iff_mul_le (by omega)).mp (Nat.not_lt.mp h₅)
  simp only [wrap_of_le hle, kDimension] at h h₆
  have hn : grid 0 * grid 1 * 3 ≤ sizeMax :=
    (Nat.le_div_iff_mul_le (by decide)).mp (Nat.not_lt.mp h₆)
  rw [wrap_of_le hn] at h
  have hb : Sized (grid 0 * grid 1)
      (resize (grid 0 * grid 1 * 3) ([] : List F), List.replicate (grid 0 * grid 1) 0) :=
    ⟨by simp, by simp⟩
  generalize hfold : List.foldlM (m := Except Exit) _ _ (List.range (grid 1)) = r at h
  cases r with
  | ok b => cases h
  | error e' =>
    cases h
    obtain ⟨row, hrow, b, hi, hs⟩ := foldlM_eq_error (Sized (grid 0 * grid 1))
      (fun row hrow b b' hi hs => (sliceRow_spec hi (List.mem_range.mp hrow) hn).1 b' hs) hb hfold
    exact ⟨h₄, (sliceRow_spec hi (List.mem_range.mp hrow) hn).2 _ hs⟩

end Slice

/-! ## Runs -/

section Runs

variable {svd : JacobiSVD F} {m m' : AnalyticsManager F}

/-- **What a stored fit has checked**: there are three functions, and each could be called at the
first position. -/
theorem wellFitted_of_solveSvd {ms : List (Measurement F)} {t : F} {cs : List F}
    (h : SVDSolver.solveSvd svd ms m.basisCollection.basis m.basisCollection.modes t = .ok cs) :
    ∃ g, ({ m with storedCoefficients := cs } : AnalyticsManager F).WellFitted g := by
  obtain ⟨-, hlen⟩ := SVDSolver.length_solveSvd h
  unfold SVDSolver.solveSvd at h
  obtain ⟨d, hd, -⟩ := bind_eq_ok.mp h
  have hthree : m.basisCollection.basis.length = 3 := by
    unfold SVDSolver.design at hd
    cases ms with
    | nil => cases hd
    | cons front rest =>
      dsimp only at hd
      split_ifs at hd with h₁ h₂ h₃ h₄ h₅
      rw [not_not.mp h₅, SVDSolver.length_getPointComponents]
  obtain ⟨b, hb⟩ : ∃ b : Fin 3 → HeaderFunction F, m.basisCollection.basis = List.ofFn b := by
    obtain ⟨f₀, f₁, f₂, hf⟩ := List.length_eq_three.mp hthree
    exact ⟨![f₀, f₁, f₂], hf⟩
  rw [hb] at hd
  have ha := SVDSolver.admits_of_design hd
  rw [SVDSolver.design_eq _ _ ha] at hd
  obtain ⟨rows, hrows, -⟩ := bind_eq_ok.mp hd
  obtain ⟨front, hfront⟩ := List.exists_mem_of_ne_nil ms ha.nonempty
  have hcall := SVDSolver.exists_rowsOf.mp (exists_mapM_eq_ok.mp ⟨rows, hrows⟩ front hfront)
  have hg : ∀ i, ∃ g, b i = ⟨some g⟩ := by
    intro i
    obtain ⟨v, hv⟩ := hcall i 0 (Nat.pos_of_ne_zero ha.modes_ne)
    unfold HeaderFunction.call at hv
    rcases hf : (b i).function with _ | g
    · rw [hf] at hv
      cases hv
    · exact ⟨g, congrArg HeaderFunction.mk hf⟩
  choose g hg using hg
  exact ⟨g, hb.trans (congrArg List.ofFn (funext hg)), hlen⟩

omit [Arith F] in
theorem contained_congr (hb : m'.basisCollection = m.basisCollection)
    (hc : m'.storedCoefficients = m.storedCoefficients) (h : m.Contained) : m'.Contained := by
  rcases h with h | ⟨g, h⟩
  · exact .inl (hc.trans h)
  · exact .inr ⟨g, by rw [hb, h.basis], by rw [hb, hc, h.length]⟩

/-- Every write of a calculation keeps what is stored inside the basis, and a `calculate_field`
leaves by an error, for want of memory, or as a mode sum leaves. -/
theorem wp_code (svd : JacobiSVD F) (c : Command F) (m : AnalyticsManager F) :
    wp (fun m₁ m₂ => m₁.Contained → m₂.Contained) (fun _ _ => True)
      (fun e _ => (∃ fuel g radius zLength, c = .calculateField fuel g radius zLength) → m.Leaves e)
      (c.code svd) m := by
  cases c with
  | calculateSvdCoefficients ms t =>
    refine wp_calculateSvdCoefficients (fun cs hcs => ⟨fun _ => ?_, trivial⟩) fun e he => ?_
    · exact .inr (wellFitted_of_solveSvd hcs)
    · obtain ⟨_, _, _, _, he⟩ := he
      cases he
  | calculateField fuel g radius zLength =>
    by_cases ha : m.Accepts radius zLength
    · have hkeep : ∀ m₁ m₂ : AnalyticsManager F, m₂.basisCollection = m₁.basisCollection →
          m₂.storedCoefficients = m₁.storedCoefficients → m₁.Contained → m₂.Contained :=
        fun _ _ hb hc => contained_congr hb hc
      refine wp_calculateField (fun fd fd' => ?_) (fun e _ he _ => he) fuel g radius zLength ha ?_
        fun fd₀ points bs _ => ⟨?_, trivial⟩
      · exact hkeep _ (m.rewriting fd') rfl rfl
      · exact hkeep _ (m.rewriting m.fieldData) rfl rfl
      · exact hkeep _ (m.completed _) rfl rfl
    · exact wp_calculateField_rejected fuel g radius zLength ha fun s _ => .unexpected m s

omit [Arith F] in
theorem contained_create {basis : BasisCollection F} (h : create basis = .ok m) : m.Contained := by
  unfold create at h
  split_ifs at h
  cases h
  exact .inl rfl

theorem contained_run {m₀ : AnalyticsManager F} {calls : List (Command F × Call Unit)}
    (h₀ : m₀.Contained) (h : Run svd m₀ calls m) : m.Contained := by
  induction h with
  | nil => exact h₀
  | call _ c r hc ih => exact wp_invariant (fun _ _ h => h) hc (wp_code svd c _) ih

/-- The evaluations of a manager ask only for functions and coefficients that are there. -/
structure EvaluatesInside (svd : JacobiSVD F) (m : AnalyticsManager F) : Prop where
  /-- Wherever a calculation has come to, stored coefficients fit the basis. -/
  contained : ∀ c p m', Reaches (Command.code svd c) m p m' → m'.Contained
  /-- Past the check of the coefficients every lookup succeeds, and the mode sum is one without
  lookups. -/
  lookups : ∀ c p m', Reaches (Command.code svd c) m p m' → ¬ m'.coefficientsMissing →
    ∃ g, (∀ i : Fin 3, readAt m'.basisCollection.basis i = .ok ⟨some (g i)⟩) ∧
      (∀ k < m'.basisCollection.modes, ∃ a, readAt m'.storedCoefficients k = .ok a) ∧
      ∀ c, m'.modeSumAt c = directSum g m'.storedCoefficients c
  point : ∀ c f, m.evaluateForPoint c = .error (.exception f) → m.Raises f
  slice : ∀ direction coordinate grid radius zLength stopRequested f,
    m.evaluateFieldSlice direction coordinate grid radius zLength stopRequested =
      .error (.exception f) → f = .badAlloc ∨ m.Raises f
  field : ∀ fuel g radius zLength f m',
    Ends svd m (.calculateField fuel g radius zLength) (.error (.exception f)) m' →
      f = .badAlloc ∨ m.Raises f

/-- A manager without coefficients refuses before it leaves by a mode sum. -/
theorem calculateField_exits (svd : JacobiSVD F) {fuel : ℕ} {g : Fin 3 → ℕ} {radius zLength : F}
    {f : Fault} (h : Ends svd m (.calculateField fuel g radius zLength) (.error (.exception f)) m') :
    ¬ m.coefficientsMissing ∧ m.Leaves (.exception f) := by
  have hl := wp_reaches h (wp_code svd _ m) ⟨fuel, g, radius, zLength, rfl⟩
  cases calculateField_spec h with
  | abandoned _ _ ha => exact ⟨ha.2.2, hl⟩

/-- **Evaluation never leaves the basis**, in any run, of a collection of any arity and with any
functions. -/
theorem Reachable.evaluatesInside (h : Reachable svd m) : m.Contained ∧ EvaluatesInside svd m := by
  obtain ⟨basis, m₀, calls, hb, hr⟩ := h
  have hm : m.Contained := contained_run (contained_create hb) hr
  have hall : ∀ c p m', Reaches (Command.code svd c) m p m' → m'.Contained :=
    fun c p m' hp => wp_invariant (fun _ _ h => h) hp (wp_code svd c m) hm
  refine ⟨hm, hall, fun c p m' hp hc => ?_, fun c f he => ?_, fun _ _ _ _ _ _ f he => ?_,
    fun fuel g radius zLength f m' he => ?_⟩
  · obtain ⟨g, hg⟩ := (hall c p m' hp).wellFitted hc
    exact ⟨g, hg.readAt_basis, fun k hk => hg.readAt_coefficients hk, hg.modeSumAt_eq⟩
  · by_cases hc : m.coefficientsMissing
    · rw [evaluateForPoint, if_pos hc] at he
      cases he
    · obtain ⟨g, hg⟩ := hm.wellFitted hc
      rw [evaluateForPoint_of_not_missing hc] at he
      cases hv : m.modeSumAt c with
      | ok v =>
        rw [hv] at he
        cases he
      | error e =>
        rw [hv] at he
        cases he
        obtain ⟨f', hf', hr⟩ := hg.modeSumAt_error hv
        cases hf'
        exact hr
  · obtain ⟨hc, hl⟩ := evaluateFieldSlice_exits he
    obtain ⟨g, hg⟩ := hm.wellFitted hc
    exact hg.origin hl
  · obtain ⟨hc, hl⟩ := calculateField_exits svd he
    obtain ⟨g', hg⟩ := hm.wellFitted hc
    exact hg.origin hl

/-- `Reachable.evaluatesInside` after one fit. -/
theorem evaluatesInside_sensor : (fitted none false 1).Contained ∧
    EvaluatesInside columnSVD (fitted none false 1) :=
  Reachable.evaluatesInside ⟨oneBasis, _, _, create_oneBasis, .call .nil _ _ (ends_sensor 1)⟩

end Runs

end TPC.Analytics.AnalyticsManager
