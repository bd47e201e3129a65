import TPC.Analytics.Svd

/-!
# What the least-squares set-up builds

* `design_columns`, `length_solveSvd`: one column, and so one coefficient, per mode;
* `rowsOf`, `valuesOf`: the three matrix rows of a position, the three values of a measurement;
* **`design_eq`**: for a basis of three functions, the design is these rows and values in order;
  `design_ofFun` for total functions, `design_congr` for refused measurements.
-/

namespace TPC.Analytics.SVDSolver

open Arith Fold

variable {F : Type} [Arith F]

omit [Arith F] in
theorem length_getPointComponents (m : Measurement F) : (MeasurementConcept.getPointComponents m).length = 3 :=
  List.length_ofFn

omit [Arith F] in
theorem writeRow_columns {basis : List (HeaderFunction F)} {modes dim i c : ℕ}
    {coordinates values : List F} {d d' : Design F}
    (h : writeRow basis modes dim coordinates values i d c = .ok d') : d'.columns = d.columns := by
  unfold writeRow at h
  obtain ⟨v, -, h⟩ := bind_eq_ok.mp h
  obtain ⟨vs, -, h⟩ := bind_eq_ok.mp h
  obtain ⟨f, -, h⟩ := bind_eq_ok.mp h
  obtain ⟨matrix, -, h⟩ := bind_eq_ok.mp h
  cases h
  rfl

omit [Arith F] in
theorem writeMeasurement_columns {basis : List (HeaderFunction F)} {modes dim : ℕ}
    {m : Measurement F × ℕ} {d d' : Design F}
    (h : writeMeasurement basis modes dim d m = .ok d') : d'.columns = d.columns := by
  unfold writeMeasurement at h
  dsimp only at h
  split_ifs at h
  exact foldlM_inv (fun _ d' => d'.columns = d.columns)
    (fun _ _ _ _ _ _ hb hs => (writeRow_columns hs).trans hb) rfl h

theorem design_columns {ms : List (Measurement F)} {basis : List (HeaderFunction F)} {modes : ℕ}
    {t : F} {d : Design F} (h : design ms basis modes t = .ok d) :
    modes ≤ indexMax ∧ d.columns = modes := by
  unfold design at h
  cases ms with
  | nil => cases h
  | cons front ms =>
    dsimp only at h
    split_ifs at h with h₁ h₂ h₃ h₄ h₅ h₆ h₇
    have hm : modes ≤ indexMax := Nat.not_lt.mp h₇
    refine ⟨hm, foldlM_inv (fun _ d' => d'.columns = modes)
      (fun _ _ _ _ _ _ hb hs => (writeMeasurement_columns hs).trans hb) ?_ h⟩
    rw [emptyDesign, toIndex_of_le hm, Int.toNat_natCast]

theorem length_solveSvd {svd : JacobiSVD F} {ms : List (Measurement F)}
    {basis : List (HeaderFunction F)} {modes : ℕ} {t : F} {cs : List F}
    (h : solveSvd svd ms basis modes t = .ok cs) : modes ≤ indexMax ∧ cs.length = modes := by
  unfold solveSvd at h
  obtain ⟨d, hd, h⟩ := bind_eq_ok.mp h
  cases h
  obtain ⟨h₁, h₂⟩ := design_columns hd
  exact ⟨h₁, (svd.length_solve d t).trans h₂⟩

/-! ## The blocks of a design -/

section Blocks

variable (basis : Fin 3 → HeaderFunction F) (modes : ℕ)

/-- The matrix row of one basis function at a position. -/
def rowOf (f : HeaderFunction F) (c : Fin 3 → F) : Call (List F) :=
  (List.range modes).mapM fun k => f.call k (c 0) (c 1) (c 2)

/-- A triple of matrix rows and a triple of values. -/
abbrev Block (F : Type) : Type := (List F × List F × List F) × (F × F × F)

/-- The matrix rows of one position. -/
def rowsOf (c : Fin 3 → F) : Call (List F × List F × List F) := do
  let row₀ ← rowOf modes (basis 0) c
  let row₁ ← rowOf modes (basis 1) c
  let row₂ ← rowOf modes (basis 2) c
  return (row₀, row₁, row₂)

/-- The field values of one measurement, as they are given. -/
def valuesOf (m : Measurement F) : F × F × F :=
  let values := m.fieldComponents.components
  (values 0, values 1, values 2)

/-- The matrix rows and the values of one measurement. -/
def blockOf (m : Measurement F) : Call (Block F) :=
  rowsOf basis modes m.pointComponents.components >>= fun rows => .ok (rows, valuesOf m)

/-- The design with these blocks. -/
def ofBlocks (blocks : List (Block F)) : Design F :=
  ⟨modes, flat (blocks.map (·.1)), flat (blocks.map (·.2))⟩

/-- The checks of `solve_svd`, for a basis of three functions. -/
structure Admits (ms : List (Measurement F)) (t : F) : Prop where
  nonempty : ms ≠ []
  modes_ne : modes ≠ 0
  threshold : ¬ t < 0
  rows : ms.length ≤ indexMax / 3
  modes_le : modes ≤ indexMax

variable {basis modes}

omit [Arith F] in
theorem rowOf_length {f : HeaderFunction F} {c : Fin 3 → F} {row : List F}
    (h : rowOf modes f c = .ok row) : row.length = modes := by
  rw [← (mapM_eq_ok.mp h).length_eq, List.length_range]

omit [Arith F] in
theorem exists_rowsOf {c : Fin 3 → F} : (∃ rows, rowsOf basis modes c = .ok rows) ↔
    ∀ i, ∀ k < modes, ∃ v, (basis i).call k (c 0) (c 1) (c 2) = .ok v := by
  have hrow : ∀ i, (∃ row, rowOf modes (basis i) c = .ok row) ↔
      ∀ k < modes, ∃ v, (basis i).call k (c 0) (c 1) (c 2) = .ok v := by
    intro i
    simpa [rowOf] using exists_mapM_eq_ok (l := List.range modes)
      (g := fun k => (basis i).call k (c 0) (c 1) (c 2))
  simp only [← hrow, Fin.forall_fin_succ, rowsOf, bind_eq_ok]
  constructor
  · rintro ⟨rows, row₀, h₀, row₁, h₁, row₂, h₂, -⟩
    exact ⟨⟨row₀, h₀⟩, ⟨row₁, h₁⟩, ⟨row₂, h₂⟩, nofun⟩
  · rintro ⟨⟨row₀, h₀⟩, ⟨row₁, h₁⟩, ⟨row₂, h₂⟩, -⟩
    exact ⟨_, row₀, h₀, row₁, h₁, row₂, h₂, rfl⟩

omit [Arith F] in
theorem foldlM_writeEntry {f : HeaderFunction F} {c : Fin 3 → F} {matrix : List (List F)} {r : ℕ}
    (hr : r < matrix.length) (hrow : matrix[r].length = modes) (hm : modes ≤ indexMax) :
    (List.range modes).foldlM (writeEntry f (List.ofFn c) r) matrix =
      rowOf modes f c >>= fun row => .ok (matrix.set r row) := by
  have h := foldlM_set_range (fun entries => matrix.set r entries)
    (writeEntry f (List.ofFn c) r) (fun k => f.call k (c 0) (c 1) (c 2)) modes
    matrix[r] hrow ?_
  · rwa [List.set_getElem_self] at h
  · intro entries k hlen hk
    unfold writeEntry
    rw [Int.toNat_natCast]
    refine bind_congr fun v => ?_
    rw [readAt_of_lt (by rwa [List.length_set]), List.getElem_set_self, toIndex_of_le (by omega)]
    change writeAt entries k v >>= _ = _
    rw [writeAt_of_lt (by omega)]
    change writeAt (matrix.set r entries) r (entries.set k v) = _
    rw [writeAt_of_lt (by rwa [List.length_set]), List.set_set]

omit [Arith F] in
theorem writeRow_eq {d : Design F} {i c N : ℕ} {f : HeaderFunction F} {x v : Fin 3 → F}
    (hc : c < 3) (hi : i < N) (hN : N ≤ indexMax / 3) (hrows : d.matrix.length = N * 3)
    (hvalues : d.values.length = N * 3) (hrow : ∀ row ∈ d.matrix, row.length = modes)
    (hm : modes ≤ indexMax) {fs : List (HeaderFunction F)} (hf : fs[c]? = some f) :
    writeRow fs modes 3 (List.ofFn x) (List.ofFn v) i d c =
      rowOf modes f x >>= fun row => .ok { d with
        matrix := d.matrix.set (i * 3 + c) row
        values := d.values.set (i * 3 + c) (v ⟨c, hc⟩) } := by
  have hindex : toIndex (wrap (wrap (3 * i) + c)) = ((i * 3 + c : ℕ) : ℤ) := by
    unfold indexMax at hN
    rw [wrap_of_le (n := 3 * i) (by unfold sizeMax; omega), wrap_of_le (by unfold sizeMax; omega),
      toIndex_of_le (by unfold indexMax; omega), Nat.mul_comm]
  have hr : i * 3 + c < d.matrix.length := by omega
  unfold writeRow
  rw [hindex, readAt_of_lt (by simpa using hc)]
  change writeAt d.values _ _ >>= _ = _
  rw [writeAt_of_lt (by omega), readAt, hf]
  change (List.range modes).foldlM (writeEntry f (List.ofFn x) _) d.matrix >>= _ = _
  rw [foldlM_writeEntry hr (hrow _ (List.getElem_mem hr)) hm, bind_assoc]
  refine bind_congr fun row => ?_
  simp only [List.getElem_ofFn]
  rfl

/-- The rows of every block have one entry per mode. -/
def Rectangular (modes : ℕ) (blocks : List (Block F)) : Prop :=
  ∀ row ∈ flat (blocks.map (·.1)), row.length = modes

omit [Arith F] in
theorem Rectangular.set {blocks : List (Block F)} {i : ℕ} {m : Measurement F} {b : Block F}
    (h : Rectangular modes blocks) (hb : blockOf basis modes m = .ok b) :
    Rectangular modes (blocks.set i b) := by
  obtain ⟨rows, hrows, hb⟩ := bind_eq_ok.mp hb
  cases hb
  obtain ⟨row₀, h₀, hrows⟩ := bind_eq_ok.mp hrows
  obtain ⟨row₁, h₁, hrows⟩ := bind_eq_ok.mp hrows
  obtain ⟨row₂, h₂, hrows⟩ := bind_eq_ok.mp hrows
  cases hrows
  intro row hrow
  rw [List.map_set, ← flat_set] at hrow
  rcases List.mem_or_eq_of_mem_set hrow with hrow | rfl
  · rcases List.mem_or_eq_of_mem_set hrow with hrow | rfl
    · rcases List.mem_or_eq_of_mem_set hrow with hrow | rfl
      · exact h row hrow
      · exact rowOf_length h₀
    · exact rowOf_length h₁
  · exact rowOf_length h₂

omit [Arith F] in
theorem ofBlocks_set (blocks : List (Block F)) (i : ℕ) (b : Block F) :
    ofBlocks modes (blocks.set i b) = { ofBlocks modes blocks with
      matrix := (((ofBlocks modes blocks).matrix.set (i * 3) b.1.1).set (i * 3 + 1) b.1.2.1).set
        (i * 3 + 2) b.1.2.2
      values := (((ofBlocks modes blocks).values.set (i * 3) b.2.1).set (i * 3 + 1) b.2.2.1).set
        (i * 3 + 2) b.2.2.2 } := by
  simp only [ofBlocks, List.map_set, flat_set]

omit [Arith F] in
/-- **One measurement writes its block.** -/
theorem writeMeasurement_eq {blocks : List (Block F)} {m : Measurement F} {i : ℕ}
    (h : Rectangular modes blocks) (hi : i < blocks.length)
    (hN : blocks.length ≤ indexMax / 3) (hm : modes ≤ indexMax) :
    writeMeasurement (List.ofFn basis) modes 3 (ofBlocks modes blocks) (m, i) =
      blockOf basis modes m >>= fun b => .ok (ofBlocks modes (blocks.set i b)) := by
  have hlen : (ofBlocks modes blocks).matrix.length = blocks.length * 3 := by simp [ofBlocks]
  have hlen' : (ofBlocks modes blocks).values.length = blocks.length * 3 := by simp [ofBlocks]
  unfold writeMeasurement
  dsimp only [MeasurementConcept.getPointComponents, MeasurementConcept.getFieldComponents]
  rw [if_neg (by simp), show List.range 3 = [0, 1, 2] from rfl, List.foldlM_cons,
    writeRow_eq (by omega : 0 < 3) hi hN hlen hlen' h hm (f := basis 0) (by simp)]
  unfold blockOf rowsOf
  simp only [bind_assoc]
  cases h₀ : rowOf modes (basis 0) m.pointComponents.components with
  | error e => simp only [error_bind]
  | ok row₀ =>
    have hrow₀ : ∀ row ∈ (ofBlocks modes blocks).matrix.set (i * 3 + 0) row₀,
        row.length = modes := fun row hrow =>
      (List.mem_or_eq_of_mem_set hrow).elim (h row) fun he => he ▸ rowOf_length h₀
    rw [ok_bind, ok_bind, ok_bind, List.foldlM_cons, writeRow_eq (by omega : 1 < 3) hi hN
      (by simpa using hlen) (by simpa using hlen') hrow₀ hm (f := basis 1) (by simp)]
    cases h₁ : rowOf modes (basis 1) m.pointComponents.components with
    | error e => simp only [error_bind]
    | ok row₁ =>
      have hrow₁ : ∀ row ∈ ((ofBlocks modes blocks).matrix.set (i * 3 + 0) row₀).set (i * 3 + 1) row₁,
          row.length = modes := fun row hrow =>
        (List.mem_or_eq_of_mem_set hrow).elim (hrow₀ row) fun he => he ▸ rowOf_length h₁
      rw [ok_bind, ok_bind, ok_bind, List.foldlM_cons, writeRow_eq (by omega : 2 < 3) hi hN
        (by simpa using hlen) (by simpa using hlen') hrow₁ hm (f := basis 2) (by simp), bind_assoc]
      refine bind_congr fun row₂ => ?_
      rw [ok_bind, List.foldlM_nil, pure_bind, ok_bind, ofBlocks_set]
      rfl

/-- The blocks of a fresh design. -/
def blank (modes n : ℕ) : List (Block F) :=
  let zeros := List.replicate modes 0
  List.replicate n ((zeros, zeros, zeros), (0, 0, 0))

theorem length_blank (n : ℕ) : (blank modes n : List (Block F)).length = n := List.length_replicate

theorem rectangular_blank {n : ℕ} : Rectangular modes (blank modes n : List (Block F)) := by
  intro row hrow
  rw [blank, List.map_replicate, flat_replicate] at hrow
  rw [List.eq_of_mem_replicate hrow, List.length_replicate]

theorem emptyDesign_eq {n : ℕ} (hn : n ≤ indexMax / 3) (hm : modes ≤ indexMax) :
    (emptyDesign (toIndex (wrap (n * 3))) (toIndex modes) : Design F) =
      ofBlocks modes (blank modes n) := by
  have hrows : toIndex (wrap (n * 3)) = ((n * 3 : ℕ) : ℤ) := by
    unfold indexMax at hn
    rw [wrap_of_le (by unfold sizeMax; omega), toIndex_of_le (by unfold indexMax; omega)]
  rw [hrows, toIndex_of_le hm, emptyDesign, Int.toNat_natCast, Int.toNat_natCast, ofBlocks, blank,
    List.map_replicate, List.map_replicate, flat_replicate, flat_replicate]

variable (basis modes) in
/-- **What `solve_svd` hands to the decomposition**: the matrix rows of the positions, in order, and
the field values as they are given. -/
theorem design_eq {ms : List (Measurement F)} {t : F} (h : Admits modes ms t) :
    design ms (List.ofFn basis) modes t =
      (ms.mapM fun m => rowsOf basis modes m.pointComponents.components) >>= fun rows =>
        .ok ⟨modes, flat rows, flat (ms.map valuesOf)⟩ := by
  refine Eq.trans ?_ (mapM_pair (fun m => rowsOf basis modes m.pointComponents.components) valuesOf
    (fun rows values => (⟨modes, flat rows, flat values⟩ : Design F)) ms)
  change _ = ms.mapM (blockOf basis modes) >>= fun blocks => .ok (ofBlocks modes blocks)
  obtain ⟨hne, hm₀, ht, hN, hm⟩ := h
  have hfold := foldlM_set (ofBlocks modes)
    (fun L => Rectangular modes L ∧ L.length = ms.length)
    (writeMeasurement (List.ofFn basis) modes 3) (fun p => blockOf basis modes p.1) ms 0
    (blank modes ms.length)
    (fun L p _ hL hi => writeMeasurement_eq hL.1 hi (hL.2 ▸ hN) hm)
    (fun L p v hL hv => ⟨hL.1.set hv, by simpa using hL.2⟩) ⟨rectangular_blank, length_blank _⟩
    (by rw [length_blank, Nat.zero_add])
  have hmap : ms.zipIdx.mapM (fun p => blockOf basis modes p.1) = ms.mapM (blockOf basis modes) := by
    conv_rhs => rw [← List.zipIdx_map_fst 0 ms, List.mapM_map]
    rfl
  rcases ms with _ | ⟨front, rest⟩
  · exact absurd rfl hne
  unfold design
  dsimp only
  have hdim := length_getPointComponents front
  rw [if_neg (by simp), if_neg hm₀, if_neg ht, hdim, if_neg (by omega), if_neg (by simp),
    if_neg (not_lt.mpr hN), if_neg (not_lt.mpr hm), emptyDesign_eq hN hm, hfold, hmap]
  refine bind_congr fun blocks => congrArg (fun L => Except.ok (ofBlocks modes L)) ?_
  simp [blank]

theorem admits_of_design {ms : List (Measurement F)} {t : F} {d : Design F}
    (h : design ms (List.ofFn basis) modes t = .ok d) : Admits modes ms t := by
  rcases ms with _ | ⟨front, rest⟩
  · cases h
  have hdim := length_getPointComponents front
  unfold design at h
  dsimp only at h
  rw [hdim] at h
  generalize List.foldlM (m := Except Exit) _ _ (front :: rest).zipIdx = d' at h
  split_ifs at h with h₁ h₂ h₃ h₄ h₅ h₆ h₇
  exact ⟨List.cons_ne_nil _ _, h₂, h₃, Nat.not_lt.mp h₆, Nat.not_lt.mp h₇⟩

/-- The rows of a position for total functions. -/
def totalRows (f : Fin 3 → ℕ → F → F → F → F) (modes : ℕ) (c : Fin 3 → F) :
    List F × List F × List F :=
  let row := fun i => (List.range modes).map fun k => f i k (c 0) (c 1) (c 2)
  (row 0, row 1, row 2)

omit [Arith F] in
theorem rowsOf_ofFun (f : Fin 3 → ℕ → F → F → F → F) (modes : ℕ) (c : Fin 3 → F) :
    rowsOf (fun i => .ofFun (f i)) modes c = .ok (totalRows f modes c) := by
  have hrow : ∀ i, rowOf modes (.ofFun (f i)) c =
      .ok ((List.range modes).map fun k => f i k (c 0) (c 1) (c 2)) := fun i => List.mapM_pure
  rw [rowsOf, hrow, hrow, hrow]
  rfl

theorem design_ofFun (f : Fin 3 → ℕ → F → F → F → F) {ms : List (Measurement F)} {t : F}
    (h : Admits modes ms t) : design ms (List.ofFn fun i => .ofFun (f i)) modes t =
      .ok ⟨modes, flat (ms.map fun m => totalRows f modes m.pointComponents.components),
        flat (ms.map valuesOf)⟩ := by
  rw [design_eq _ _ h]
  simp only [rowsOf_ofFun]
  exact congrArg (· >>= _) List.mapM_pure

/-- Refused measurements give the same error, whatever they are. -/
theorem design_congr {ms ms' : List (Measurement F)} {t : F} (hlen : ms.length = ms'.length)
    (h : ¬ Admits modes ms t) :
    design ms (List.ofFn basis) modes t = design ms' (List.ofFn basis) modes t := by
  rcases ms with _ | ⟨front, rest⟩ <;> rcases ms' with _ | ⟨front', rest'⟩ <;>
    simp only [List.length_nil, List.length_cons, Nat.add_one_ne_zero, Nat.zero_ne_add_one] at hlen
  · rfl
  unfold design
  dsimp only
  rw [length_getPointComponents, length_getPointComponents, List.length_cons, List.length_cons, hlen]
  generalize List.foldlM (m := Except Exit) _ _ (front :: rest).zipIdx = d
  generalize List.foldlM (m := Except Exit) _ _ (front' :: rest').zipIdx = d'
  split_ifs with h₁ h₂ h₃ h₄ h₅ h₆ h₇
  any_goals rfl
  have hrows : (front :: rest).length ≤ indexMax / 3 := by
    rw [List.length_cons, hlen]
    exact Nat.not_lt.mp h₆
  exact absurd ⟨List.cons_ne_nil _ _, h₂, h₃, hrows, Nat.not_lt.mp h₇⟩ h

end Blocks

end TPC.Analytics.SVDSolver
