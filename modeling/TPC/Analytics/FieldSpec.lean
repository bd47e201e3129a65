import TPC.Analytics.Manager

/-!
# What the two calculations do

While `calculate_field` holds the field lock, the manager is `m.rewriting fd` for the collection
`fd` reached so far; the last write takes it to `m.completed fd`.

* `stored`, `HoldsField`, `Calculates`: flat coordinates, and the mode sums at them;
* `Leaves`: how a calculation may leave other than by its value;
* `wp_onFieldData`, `exec_onFieldData`: calls of the stored collection;
* `wp_calculateGridKernel`, `wp_calculateFieldKernel`, `wp_calculateField`: one rule for each
  part, for every guarantee on the writes;
* `exists_ends_calculateField`, `ends_calculateSvdCoefficients`: when a call can succeed;
* `FieldEnd`, `FitEnd`, **`calculateField_spec`**, `calculateSvdCoefficients_spec`: what a call that
  has ended did.
-/

namespace TPC.Analytics

open Arith Prog

variable {F : Type} [Arith F]

namespace AnalyticsManager

/-- A manager whose buffers are being rewritten. -/
def rewriting (m : AnalyticsManager F) (fd : Option (FieldCollection F)) : AnalyticsManager F :=
  { m with fieldData := fd, fieldDataValid := false }

/-- A manager after a calculation that succeeded. -/
def completed (m : AnalyticsManager F) (fd : FieldCollection F) : AnalyticsManager F :=
  { m with fieldData := some fd, fieldDataValid := true }

/-- The collection `fd` with these coordinates and field values. -/
def stored (fd : FieldCollection F) (cs bs : List (F × F × F)) : FieldCollection F :=
  { fd with coordinates := Fold.flat cs, field := Fold.flat bs }

/-- The field triples are the mode sums at the coordinate triples. -/
def HoldsField (m : AnalyticsManager F) (cs bs : List (F × F × F)) : Prop :=
  List.Forall₂ (fun c b => m.modeSumAt (toArray c) = .ok (toArray b)) cs bs

/-- These are the points of the grid and the mode sums at them. -/
structure Calculates (m : AnalyticsManager F) (fuel : ℕ) (g : Fin 3 → ℕ) (radius zLength : F)
    (points bs : List (F × F × F)) : Prop where
  dims : 2 ≤ g 0 ∧ 2 ≤ g 1 ∧ 2 ≤ g 2
  grid : gridPoints fuel g radius zLength = some points
  size : points.length * 3 ≤ vectorMax
  field : m.HoldsField (points.map polar) bs

omit [Arith F] in
@[simp] theorem length_coordinates_stored (fd : FieldCollection F) (cs bs : List (F × F × F)) :
    (stored fd cs bs).coordinates.length = cs.length * 3 := Fold.length_flat cs

omit [Arith F] in
@[simp] theorem length_field_stored (fd : FieldCollection F) (cs bs : List (F × F × F)) :
    (stored fd cs bs).field.length = bs.length * 3 := Fold.length_flat bs

omit [Arith F] in
theorem stored_concat (fd : FieldCollection F) (cs : List (F × F × F)) (p : F × F × F) :
    stored fd (cs ++ [p]) [] = (((stored fd cs []).pushCoordinate p.1).pushCoordinate
      p.2.1).pushCoordinate p.2.2 := by
  simp [stored, FieldCollection.pushCoordinate, Fold.flat_append]

omit [Arith F] in
theorem stored_set (fd : FieldCollection F) (cs bs : List (F × F × F)) (id : ℕ) (a b c : F) :
    stored fd cs (bs.set id (a, b, c)) = { stored fd cs bs with
      field := (((stored fd cs bs).field.set (id * kDimension) a).set (id * kDimension + 1)
        b).set (id * kDimension + 2) c } := by
  rw [stored, ← Fold.flat_set]
  rfl

theorem exists_resizeFieldToCoordinates (fd : FieldCollection F) (cs : List (F × F × F)) :
    ∃ bs, bs.length = cs.length ∧ (stored fd cs []).resizeFieldToCoordinates = stored fd cs bs := by
  obtain ⟨bs, hlen, he⟩ := Fold.exists_flat cs.length
    (resize (Fold.flat cs).length ([] : List F)) (by simp)
  refine ⟨bs, hlen, ?_⟩
  rw [stored, stored, he]
  rfl

theorem evaluateForPoint_of_not_missing {m : AnalyticsManager F}
    (hc : ¬ m.coefficientsMissing) (c : Fin 3 → F) :
    m.evaluateForPoint c = (m.modeSumAt c).map fun v => ⟨v, .cylindric⟩ := by
  rw [evaluateForPoint, if_neg hc]
  rfl

/-- How a calculation on `m` may leave: by an error, for want of memory, or as a mode sum leaves. -/
def Leaves (m : AnalyticsManager F) (e : Exit) : Prop :=
  (∃ s, e = .unexpected s) ∨ e = .exception .badAlloc ∨ ∃ c, m.modeSumAt c = .error e

theorem Leaves.unexpected (m : AnalyticsManager F) (s : String) : m.Leaves (.unexpected s) :=
  .inl ⟨s, rfl⟩

theorem Leaves.badAlloc (m : AnalyticsManager F) : m.Leaves (.exception .badAlloc) := .inr (.inl rfl)

/-! ## The stored collection -/

section Collection

variable {G : FieldCollection F → FieldCollection F → Prop} {Q : Unit → FieldCollection F → Prop}
  {X : Exit → FieldCollection F → Prop} {fd : FieldCollection F}

omit [Arith F]

theorem wp_allocate (n : ℕ) : wp G Q X (Collection.allocate n) fd ↔
    (n ≤ vectorMax → Q () fd) ∧ X (.exception .badAlloc) fd := by
  unfold Collection.allocate
  split_ifs with h
  · simp [Nat.not_le.mpr h]
  · simp [Nat.not_lt.mp h, and_comm]

theorem wp_pushBack (v : F) (hG : ∀ fd fd', G fd fd') (hX : ∀ fd, X (.exception .badAlloc) fd)
    (hQ : fd.coordinates.length + 1 ≤ vectorMax → Q () (fd.pushCoordinate v)) :
    wp G Q X (Collection.pushBack v) fd := by
  unfold Collection.pushBack
  rw [wp_bind, wp_get, wp_bind, wp_allocate]
  exact ⟨fun h => ⟨hG _ _, hQ h⟩, hX _⟩

end Collection

section OnFieldData

variable {A : Type} {G : AnalyticsManager F → AnalyticsManager F → Prop} {Q : A → AnalyticsManager F → Prop}
  {X : Exit → AnalyticsManager F → Prop} {m : AnalyticsManager F} {fd : FieldCollection F}

omit [Arith F]

theorem wp_onFieldData (call : Collection.Code F A) : wp G Q X (onFieldData call) (m.rewriting (some fd)) ↔
    wp (fun fd fd' => G (m.rewriting (some fd)) (m.rewriting (some fd'))) (fun a fd => Q a (m.rewriting (some fd)))
      (fun e fd => X e (m.rewriting (some fd))) call fd :=
  wp_within (D := fun fd => m.rewriting (some fd)) (fun _ => rfl) (fun _ _ => rfl) call fd

theorem exec_onFieldData (call : Collection.Code F A) : exec (onFieldData call) (m.rewriting (some fd)) =
    (exec call fd).map fun (r, fd') => (r, m.rewriting (some fd')) :=
  exec_within (D := fun fd => m.rewriting (some fd)) (fun _ => rfl) (fun _ _ => rfl) call fd

theorem granted_onFieldData {call : Collection.Code F A} {a : A} {fd' : FieldCollection F}
    (hcall : exec call fd = some (.ok a, fd')) (h : Q a (m.rewriting (some fd'))) :
    Granted Q (onFieldData call) (m.rewriting (some fd)) :=
  ⟨a, _, by rw [exec_onFieldData, hcall]; rfl, h⟩

end OnFieldData

/-! ## The parts of the calculation -/

section Rules

variable {G : AnalyticsManager F → AnalyticsManager F → Prop} {Q : Unit → AnalyticsManager F → Prop}
  {X : Exit → AnalyticsManager F → Prop} {m : AnalyticsManager F} {fd₀ : FieldCollection F}
  (hG : ∀ fd fd', G (m.rewriting fd) (m.rewriting fd'))
  (hX : ∀ e fd, m.Leaves e → X e (m.rewriting fd))

include hG hX

theorem wp_appendCoordinate {cs : List (F × F × F)} (p : F × F × F)
    (hQ : (cs ++ [p]).length * 3 ≤ vectorMax →
      Q () (m.rewriting (some (stored fd₀ (cs ++ [p]) [])))) :
    wp G Q X (appendCoordinate p) (m.rewriting (some (stored fd₀ cs []))) := by
  have hbadAlloc : ∀ fd, X (.exception .badAlloc) (m.rewriting (some fd)) := fun fd => hX _ _ (.badAlloc m)
  rw [appendCoordinate, wp_onFieldData, Collection.appendCoordinate, wp_bind]
  refine wp_pushBack p.1 (fun _ _ => hG _ _) hbadAlloc fun _ => ?_
  rw [wp_bind]
  refine wp_pushBack p.2.1 (fun _ _ => hG _ _) hbadAlloc fun _ => ?_
  refine wp_pushBack p.2.2 (fun _ _ => hG _ _) hbadAlloc fun h => ?_
  have hlen : (cs ++ [p]).length * 3 ≤ vectorMax := by
    simp only [FieldCollection.pushCoordinate, stored, List.length_append, Fold.length_flat,
      List.length_cons, List.length_nil] at h ⊢
    omega
  rw [← stored_concat]
  exact hQ hlen

theorem wp_calculateGridKernel (fuel : ℕ) (g : Fin 3 → ℕ) (radius depth : F)
    (hQ : ∀ points, 2 ≤ g 0 → 2 ≤ g 1 → 2 ≤ g 2 → gridPoints fuel g radius depth = some points →
      points.length * 3 ≤ vectorMax →
      Q () (m.rewriting (some (stored fd₀ (points.map polar) [])))) :
    wp G Q X (calculateGridKernel fuel g radius depth) (m.rewriting (some (stored fd₀ [] []))) := by
  unfold calculateGridKernel
  split_ifs with hg hr
  · exact hX _ _ (.unexpected m _)
  · exact hX _ _ (.unexpected m _)
  push Not at hg
  cases hp : gridPoints fuel g radius depth with
  | none => trivial
  | some points =>
    dsimp only
    split_ifs with hs
    · exact hX _ _ (.unexpected m _)
    rw [wp_bind, reserve, wp_onFieldData, Collection.reserve, wp_bind, wp_allocate, wp_allocate]
    refine ⟨fun _ => ⟨fun _ => ?_, hX _ _ (.badAlloc m)⟩, hX _ _ (.badAlloc m)⟩
    refine wp_each (fun done m' => m' = m.rewriting (some (stored fd₀ done [])) ∧
      done.length * 3 ≤ vectorMax) ?_ ⟨rfl, Nat.zero_le _⟩ ?_
    · rintro done p rest m' - ⟨rfl, -⟩
      exact wp_appendCoordinate hG hX p fun h => ⟨rfl, h⟩
    · rintro m' ⟨rfl, h⟩
      exact hQ points hg.1 hg.2.1 hg.2.2 hp (by rwa [List.length_map] at h)

theorem wp_fieldAt {cs bs : List (F × F × F)} (id : ℕ) (hid : id < cs.length)
    (hQ : ∀ b, m.modeSumAt (toArray cs[id]) = .ok (toArray b) →
      Q () (m.rewriting (some (stored fd₀ cs (bs.set id b))))) :
    wp G Q X (fieldAt id) (m.rewriting (some (stored fd₀ cs bs))) := by
  unfold fieldAt
  obtain ⟨h₀, h₁, h₂⟩ := Fold.flat_getElem? cs id
  simp only [wp_bind, wp_get, wp_ofExcept]
  simp only [rewriting, stored, kDimension, Option.map_some, Option.getD_some, readAt, h₀, h₁, h₂,
    List.getElem?_eq_getElem hid]
  refine ⟨fun v hv => ?_, fun e he => hX _ _ (.inr (.inr ⟨_, he⟩))⟩
  have hb := hQ (v 0, v 1, v 2) (by rw [toArray_self]; exact hv)
  rw [stored_set] at hb
  exact ⟨hG _ _, hG _ _, hG _ _, hb⟩

omit hG hX in
theorem range_eq_append {n a : ℕ} {done rest : List ℕ} (h : List.range n = done ++ a :: rest) :
    a = done.length ∧ a < n := by
  have ha : (List.range n)[done.length]? = some a := by
    rw [h, List.getElem?_append_right le_rfl, Nat.sub_self, List.getElem?_cons_zero]
  have hlt : done.length < n := by
    by_contra hc
    rw [List.getElem?_eq_none (by simpa using hc)] at ha
    cases ha
  rw [List.getElem?_range hlt] at ha
  cases ha
  exact ⟨rfl, hlt⟩

theorem wp_calculateFieldKernel {cs bs : List (F × F × F)} (hlen : bs.length = cs.length)
    (hQ : ∀ bs, m.HoldsField cs bs → Q () (m.rewriting (some (stored fd₀ cs bs)))) :
    wp G Q X calculateFieldKernel (m.rewriting (some (stored fd₀ cs bs))) := by
  unfold calculateFieldKernel
  rw [wp_bind, wp_get]
  dsimp only [rewriting]
  split_ifs with h₁ h₂
  · exact hX _ _ (.unexpected m _)
  · exact hX _ _ (.unexpected m _)
  have hcount : (stored fd₀ cs bs).coordinates.length / kDimension = cs.length := by
    simp [kDimension]
  rw [hcount]
  -- the first `done.length` field triples are final
  refine wp_each (fun done m' => ∃ bs', m' = m.rewriting (some (stored fd₀ cs bs')) ∧
    bs'.length = cs.length ∧ ∀ i, i < done.length → ∀ c b, cs[i]? = some c → bs'[i]? = some b →
      m.modeSumAt (toArray c) = .ok (toArray b)) ?_ ⟨bs, rfl, hlen, by simp⟩ ?_
  · rintro done id rest m' hl ⟨bs', rfl, hlen', hdone⟩
    obtain ⟨rfl, hid⟩ := range_eq_append hl
    refine wp_fieldAt hG hX _ hid fun b hb => ⟨bs'.set done.length b, rfl, by simpa using hlen', ?_⟩
    intro i hi c b' hc hb'
    rw [List.length_append, List.length_singleton] at hi
    by_cases hne : i = done.length
    · subst hne
      rw [List.getElem?_set_self (by omega)] at hb'
      rw [List.getElem?_eq_getElem hid] at hc
      cases hb'
      cases hc
      exact hb
    · rw [List.getElem?_set_ne (Ne.symm hne)] at hb'
      exact hdone i (by omega) c b' hc hb'
  · rintro m' ⟨bs', rfl, hlen', hdone⟩
    refine hQ bs' (List.forall₂_iff_get.mpr ⟨hlen'.symm, fun i hc hb => ?_⟩)
    refine hdone i (by simpa using hc) _ _ (List.getElem?_eq_getElem hc) ?_
    exact List.getElem?_eq_getElem hb

omit [Arith F] hX in
theorem wp_resetFieldData (hQ : ∀ fd₀, Q () (m.rewriting (some (stored fd₀ [] [])))) :
    wp G Q X resetFieldData (m.rewriting m.fieldData) := by
  unfold resetFieldData
  rw [wp_bind, wp_get]
  cases h : m.fieldData with
  | none => exact ⟨hG _ _, hQ (.new kDimension .cylindric .cylindric)⟩
  | some fd =>
    show wp G Q X (onFieldData Collection.clear) (m.rewriting (some fd))
    rw [wp_onFieldData]
    exact ⟨hG _ _, hG _ _, hQ fd⟩

theorem wp_rewriteFieldData (fuel : ℕ) (g : Fin 3 → ℕ) (radius depth : F)
    (hG₀ : G m (m.rewriting m.fieldData))
    (hQ : ∀ fd₀ points bs, m.Calculates fuel g radius depth points bs →
      G (m.rewriting (some (stored fd₀ (points.map polar) bs)))
          (m.completed (stored fd₀ (points.map polar) bs)) ∧
        Q () (m.completed (stored fd₀ (points.map polar) bs))) :
    wp G Q X (rewriteFieldData fuel g radius depth) m := by
  unfold rewriteFieldData
  rw [wp_bind, wp_modify]
  refine ⟨hG₀, ?_⟩
  rw [wp_bind]
  refine wp_resetFieldData hG fun fd₀ => ?_
  rw [wp_bind]
  refine wp_calculateGridKernel hG hX fuel g radius depth fun points h₀ h₁ h₂ hp hlen => ?_
  rw [wp_bind, wp_onFieldData, Collection.resizeFieldToCoordinates, wp_bind, wp_get, wp_bind, wp_allocate]
  refine ⟨fun _ => ⟨hG _ _, ?_⟩, hX _ _ (.badAlloc m)⟩
  obtain ⟨bs₀, hbs₀, hst⟩ := exists_resizeFieldToCoordinates fd₀ (points.map polar)
  rw [hst, wp_ret, wp_bind]
  refine wp_calculateFieldKernel hG hX hbs₀ fun bs hbs => ?_
  exact hQ fd₀ points bs ⟨⟨h₀, h₁, h₂⟩, hp, hlen, hbs⟩

/-- The arguments and the state pass the checks that come before the first write. -/
def Accepts (m : AnalyticsManager F) (radius zLength : F) : Prop :=
  m.basisCollection.arity = kDimension ∧ ¬ (radius ≤ 0 ∨ zLength ≤ 0) ∧ ¬ m.coefficientsMissing

omit hG hX in
theorem validate_eq_ok {radius zLength : F} {u : Unit} : m.validate radius zLength = .ok u ↔
    m.basisCollection.arity = kDimension ∧ ¬ (radius ≤ 0 ∨ zLength ≤ 0) := by
  unfold validate
  split_ifs with h₁ h₂
  · simp [h₁]
  · simp [h₂]
  · exact ⟨fun _ => ⟨not_not.mp h₁, h₂⟩, fun _ => rfl⟩

omit hG hX in
theorem validate_unexpected {radius zLength : F} {e : Exit}
    (h : m.validate radius zLength = .error e) : ∃ s, e = .unexpected s := by
  unfold validate at h
  split_ifs at h <;> cases h <;> exact ⟨_, rfl⟩

theorem wp_calculateField (fuel : ℕ) (g : Fin 3 → ℕ) (radius zLength : F)
    (ha : m.Accepts radius zLength) (hG₀ : G m (m.rewriting m.fieldData))
    (hQ : ∀ fd₀ points bs, m.Calculates fuel g radius zLength points bs →
      G (m.rewriting (some (stored fd₀ (points.map polar) bs)))
          (m.completed (stored fd₀ (points.map polar) bs)) ∧
        Q () (m.completed (stored fd₀ (points.map polar) bs))) :
    wp G Q X (calculateField fuel g radius zLength) m := by
  unfold calculateField
  rw [wp_bind, wp_get, wp_bind, wp_ofExcept]
  refine ⟨fun _ _ => ?_, fun e he => ?_⟩
  swap
  · rw [validate_eq_ok (u := ()).mpr ⟨ha.1, ha.2.1⟩] at he
    cases he
  rw [wp_withLock, wp_bind, wp_get, if_neg ha.2.2, wp_withLock]
  exact wp_rewriteFieldData hG hX fuel g radius zLength hG₀ hQ

omit hG hX in
/-- A call rejected up front writes nothing. -/
theorem wp_calculateField_rejected (fuel : ℕ) (g : Fin 3 → ℕ) (radius zLength : F)
    (ha : ¬ m.Accepts radius zLength) (hR : ∀ e, X (.unexpected e) m) :
    wp G Q X (calculateField fuel g radius zLength) m := by
  unfold calculateField
  rw [wp_bind, wp_get, wp_bind, wp_ofExcept]
  refine ⟨fun _ hv => ?_, fun e he => ?_⟩
  · have hv := validate_eq_ok.mp hv
    have h₃ : m.coefficientsMissing := by
      by_contra h₃
      exact ha ⟨hv.1, hv.2, h₃⟩
    rw [wp_withLock, wp_bind, wp_get, if_pos h₃, wp_throw]
    exact hR "SVD coefficients are not calculated"
  · obtain ⟨s, rfl⟩ := validate_unexpected he
    exact hR s

omit hG hX in
theorem wp_calculateSvdCoefficients {svd : JacobiSVD F} {ms : List (Measurement F)} {t : F}
    (hQ : ∀ cs, SVDSolver.solveSvd svd (cylindricMeasurements ms) m.basisCollection.basis
        m.basisCollection.modes t = .ok cs →
      G m { m with storedCoefficients := cs } ∧ Q () { m with storedCoefficients := cs })
    (hR : ∀ e, X e m) : wp G Q X (calculateSvdCoefficients svd ms t) m := by
  unfold calculateSvdCoefficients
  rw [wp_bind, wp_get]
  split_ifs
  · exact hR _
  · exact hR _
  rw [wp_bind, wp_ofExcept]
  refine ⟨fun cs hcs => ?_, fun e _ => hR e⟩
  rw [wp_withLock, wp_modify]
  exact hQ cs hcs

end Rules

/-! ## Calls that return -/

section Returns

variable {m : AnalyticsManager F} {Q : Unit → AnalyticsManager F → Prop} {fd₀ : FieldCollection F}

theorem granted_calculateGridKernel {fuel : ℕ} {g : Fin 3 → ℕ} {radius depth : F}
    {points : List (F × F × F)} (hg : ∀ i, 2 ≤ g i) (hr : ¬ (radius ≤ 0 ∨ depth ≤ 0))
    (hp : gridPoints fuel g radius depth = some points) (hlen : points.length * 3 ≤ vectorMax)
    (h : Q () (m.rewriting (some (stored fd₀ (points.map polar) [])))) :
    Granted Q (calculateGridKernel fuel g radius depth)
      (m.rewriting (some (stored fd₀ [] []))) := by
  have hsize := hlen.trans vectorMax_le_sizeMax
  have hw : wrap points.length = points.length := wrap_of_le (by omega)
  have hw₃ : wrap (points.length * 3) = points.length * 3 := wrap_of_le hsize
  have hs : ¬ sizeMax / kDimension < points.length :=
    Nat.not_lt.mpr ((Nat.le_div_iff_mul_le (by decide)).mpr hsize)
  unfold calculateGridKernel
  rw [if_neg (by have := hg 0; have := hg 1; have := hg 2; omega), if_neg hr, hp]
  dsimp only
  rw [hw, if_neg hs, kDimension, hw₃]
  have hreserve : exec (Collection.reserve (points.length * 3)) (stored fd₀ [] []) =
      some (.ok (), stored fd₀ [] []) := by
    rw [Collection.exec_reserve, if_neg (Nat.not_lt.mpr hlen)]
  refine granted_bind (granted_onFieldData hreserve ?_)
  refine granted_each (fun done m' => m' = m.rewriting (some (stored fd₀ done []))) ?_ rfl ?_
  · rintro done p rest m' hl rfl
    have hl' := congrArg List.length hl
    simp only [List.length_map, List.length_append, List.length_cons] at hl'
    refine granted_onFieldData (Collection.exec_appendCoordinate p.1 p.2.1 p.2.2 ?_) ?_
    · rw [length_coordinates_stored]
      omega
    · rw [stored_concat]
  · rintro m' rfl
    exact h

theorem granted_fieldAt {cs bs : List (F × F × F)} {id : ℕ} (hid : id < cs.length)
    (hv : ∃ v, m.modeSumAt (toArray cs[id]) = .ok v)
    (h : ∀ bs', bs'.length = bs.length → Q () (m.rewriting (some (stored fd₀ cs bs')))) :
    Granted Q (fieldAt id) (m.rewriting (some (stored fd₀ cs bs))) := by
  obtain ⟨v, hv⟩ := hv
  obtain ⟨h₀, h₁, h₂⟩ := Fold.flat_getElem? cs id
  have hb := h (bs.set id (v 0, v 1, v 2)) (by simp)
  rw [stored_set] at hb
  unfold fieldAt
  refine granted_bind (granted_get (granted_bind ?_))
  simp only [rewriting, stored, kDimension, Option.map_some, Option.getD_some, readAt, h₀, h₁, h₂,
    List.getElem?_eq_getElem hid]
  refine ⟨v, _, (exec_ofExcept _ _).trans (congrArg (fun c => some (c, _)) hv), ?_⟩
  exact granted_bind (granted_modify (granted_bind (granted_modify (granted_modify hb))))

theorem granted_calculateFieldKernel {cs bs : List (F × F × F)} (hlen : bs.length = cs.length)
    (hmax : cs.length * 3 ≤ sizeMax) (hv : ∀ c ∈ cs, ∃ v, m.modeSumAt (toArray c) = .ok v)
    (h : ∀ bs, Q () (m.rewriting (some (stored fd₀ cs bs)))) :
    Granted Q calculateFieldKernel (m.rewriting (some (stored fd₀ cs bs))) := by
  have hcount : (stored fd₀ cs bs).coordinates.length / kDimension = cs.length := by
    simp [kDimension]
  have hmod : (stored fd₀ cs bs).coordinates.length % kDimension = 0 := by
    simp [kDimension]
  have hfield : (stored fd₀ cs bs).field.length = wrap (cs.length * kDimension) := by
    rw [kDimension, wrap_of_le hmax, length_field_stored, hlen]
  unfold calculateFieldKernel
  refine granted_bind (granted_get ?_)
  dsimp only [rewriting]
  rw [if_neg (not_not.mpr hmod), hcount, if_neg (not_not.mpr hfield)]
  refine granted_each (fun _ m' => ∃ bs', m' = m.rewriting (some (stored fd₀ cs bs')) ∧
    bs'.length = cs.length) ?_ ⟨bs, rfl, hlen⟩ ?_
  · rintro done id rest m' hl ⟨bs', rfl, hlen'⟩
    obtain ⟨rfl, hid⟩ := range_eq_append hl
    exact granted_fieldAt hid (hv _ (List.getElem_mem hid)) fun bs'' hb => ⟨bs'', rfl, hb.trans hlen'⟩
  · rintro m' ⟨bs', rfl, -⟩
    exact h bs'

omit [Arith F] in
theorem granted_resetFieldData (h : ∀ fd₀, Q () (m.rewriting (some (stored fd₀ [] [])))) :
    Granted Q resetFieldData (m.rewriting m.fieldData) := by
  unfold resetFieldData
  refine granted_bind (granted_get ?_)
  cases hfd : m.fieldData with
  | none => exact granted_modify (h (.new kDimension .cylindric .cylindric))
  | some fd => exact granted_onFieldData rfl (h fd)

/-- **Accepted requests succeed** when the allocations do, the grid is large enough for the code
and small enough for the buffers, and the basis functions can be called at its points. -/
theorem exists_ends_calculateField (svd : JacobiSVD F) {fuel : ℕ} {g : Fin 3 → ℕ}
    {radius zLength : F} {points : List (F × F × F)} (ha : m.Accepts radius zLength)
    (hg : ∀ i, 2 ≤ g i) (hp : gridPoints fuel g radius zLength = some points)
    (hlen : points.length * 3 ≤ vectorMax)
    (hv : ∀ c ∈ points.map polar, ∃ v, m.modeSumAt (toArray c) = .ok v) :
    ∃ m', Ends svd m (.calculateField fuel g radius zLength) (.ok ()) m' := by
  have hmax : (points.map polar).length * 3 ≤ sizeMax := by
    rw [List.length_map]
    exact hlen.trans vectorMax_le_sizeMax
  suffices h : Granted (fun _ _ => True) (calculateField fuel g radius zLength) m by
    obtain ⟨⟨⟩, m', h, -⟩ := h.returns
    exact ⟨m', h⟩
  unfold calculateField
  refine granted_bind (granted_get (granted_bind ?_))
  rw [(validate_eq_ok (u := ())).mpr ⟨ha.1, ha.2.1⟩]
  refine granted_ofExcept (granted_withLock (granted_bind (granted_get ?_)))
  rw [if_neg ha.2.2]
  refine granted_withLock (granted_bind (granted_modify (granted_bind ?_)))
  refine granted_resetFieldData fun fd₀ => granted_bind ?_
  refine granted_calculateGridKernel hg ha.2.1 hp hlen (granted_bind ?_)
  have hcount : (stored fd₀ (points.map polar) []).coordinates.length ≤ vectorMax := by
    rw [length_coordinates_stored, List.length_map]
    exact hlen
  refine granted_onFieldData (Collection.exec_resizeFieldToCoordinates hcount) ?_
  obtain ⟨bs₀, hbs₀, hst⟩ := exists_resizeFieldToCoordinates fd₀ (points.map polar)
  rw [hst]
  exact granted_bind (granted_calculateFieldKernel hbs₀ hmax hv fun _ => granted_modify trivial)

/-- A grid that is too small is refused after the stored field has been discarded. -/
theorem exists_ends_calculateField_refused (svd : JacobiSVD F) (fuel : ℕ) {g : Fin 3 → ℕ}
    {radius zLength : F} (ha : m.Accepts radius zLength) (hg : g 0 < 2 ∨ g 1 < 2 ∨ g 2 < 2) :
    ∃ m', Ends svd m (.calculateField fuel g radius zLength)
      (.error (.unexpected "Grid dimensions are too small")) m' := by
  have hreset : ∃ m', exec (resetFieldData (F := F)) (m.rewriting m.fieldData) = some (.ok (), m') := by
    obtain ⟨⟨⟩, m', h, -⟩ := granted_resetFieldData (m := m) (Q := fun _ _ => True) fun _ => trivial
    exact ⟨m', h⟩
  obtain ⟨m', hreset⟩ := hreset
  have hgrid : exec (calculateGridKernel fuel g radius zLength) m' =
      some (.error (.unexpected "Grid dimensions are too small"), m') := by
    unfold calculateGridKernel
    rw [if_pos hg, exec_throw]
  have hrewrite : exec (rewriteFieldData fuel g radius zLength) m =
      some (.error (.unexpected "Grid dimensions are too small"), m') :=
    (exec_bind_ok (exec_modify _ m)).trans ((exec_bind_ok hreset).trans (exec_bind_error hgrid))
  refine ⟨m', exec_exits ((exec_bind_ok (exec_get m)).trans ?_)⟩
  rw [(validate_eq_ok (u := ())).mpr ⟨ha.1, ha.2.1⟩]
  refine (exec_bind_ok (exec_ofExcept _ m)).trans ((exec_withLock _ _ m).trans ?_)
  refine (exec_bind_ok (exec_get m)).trans ?_
  rw [if_neg ha.2.2, exec_withLock, hrewrite]

theorem ends_calculateSvdCoefficients {svd : JacobiSVD F} {ms : List (Measurement F)} {t : F}
    {cs : List F} (hms : ms ≠ []) (hb : m.basisCollection.basis ≠ [])
    (h : SVDSolver.solveSvd svd (cylindricMeasurements ms) m.basisCollection.basis
      m.basisCollection.modes t = .ok cs) :
    Ends svd m (.calculateSvdCoefficients ms t) (.ok ()) { m with storedCoefficients := cs } := by
  suffices hg : Granted (fun _ m' => m' = { m with storedCoefficients := cs })
      (calculateSvdCoefficients svd ms t) m by
    obtain ⟨⟨⟩, _, h, rfl⟩ := hg.returns
    exact h
  unfold calculateSvdCoefficients
  refine granted_bind (granted_get ?_)
  rw [if_neg (by simpa using hms), if_neg (by simpa using hb), h]
  exact granted_bind (granted_ofExcept (granted_withLock (granted_modify rfl)))

end Returns

/-! ## Calls that have ended -/

/-- How a call of `calculate_field` on `m` has ended. It never touches the basis or the
coefficients. -/
inductive FieldEnd (m : AnalyticsManager F) (fuel : ℕ) (g : Fin 3 → ℕ) (radius zLength : F) :
    Call Unit → AnalyticsManager F → Prop
  /-- The collection holds the field of the generated grid. -/
  | completed (fd₀ : FieldCollection F) (points bs : List (F × F × F))
    (ha : m.Accepts radius zLength) (h : m.Calculates fuel g radius zLength points bs) :
    FieldEnd m fuel g radius zLength (.ok ()) (m.completed (stored fd₀ (points.map polar) bs))
  /-- Nothing was written. -/
  | rejected (e : String) (ha : ¬ m.Accepts radius zLength) :
    FieldEnd m fuel g radius zLength (.error (.unexpected e)) m
  /-- The old field is gone, and there is no valid one. -/
  | abandoned (e : Exit) (fd : Option (FieldCollection F)) (ha : m.Accepts radius zLength) :
    FieldEnd m fuel g radius zLength (.error e) (m.rewriting fd)

/-- **What `calculate_field` did.** -/
theorem calculateField_spec {svd : JacobiSVD F} {m m' : AnalyticsManager F}
    {fuel : ℕ} {g : Fin 3 → ℕ} {radius zLength : F} {r : Call Unit}
    (h : Ends svd m (.calculateField fuel g radius zLength) r m') :
    FieldEnd m fuel g radius zLength r m' := by
  refine wp_ended (R := FieldEnd m fuel g radius zLength) (G := fun _ _ => True) h ?_
  by_cases ha : m.Accepts radius zLength
  · refine wp_calculateField (fun _ _ => trivial) (fun e fd _ => .abandoned e fd ha) fuel g radius
      zLength ha trivial fun fd₀ points bs hc => ⟨trivial, .completed fd₀ points bs ha hc⟩
  · exact wp_calculateField_rejected fuel g radius zLength ha fun e => .rejected e ha

/-- How a call of `calculate_svd_coefficients` on `m` has ended: with one write, or with none. -/
inductive FitEnd (svd : JacobiSVD F) (m : AnalyticsManager F) (ms : List (Measurement F)) (t : F) :
    Call Unit → AnalyticsManager F → Prop
  | stored (cs : List F) (h : SVDSolver.solveSvd svd (cylindricMeasurements ms)
      m.basisCollection.basis m.basisCollection.modes t = .ok cs) :
    FitEnd svd m ms t (.ok ()) { m with storedCoefficients := cs }
  | failed (e : Exit) : FitEnd svd m ms t (.error e) m

theorem calculateSvdCoefficients_spec {svd : JacobiSVD F} {m m' : AnalyticsManager F}
    {ms : List (Measurement F)} {t : F} {r : Call Unit}
    (h : Ends svd m (.calculateSvdCoefficients ms t) r m') : FitEnd svd m ms t r m' :=
  wp_ended (R := FitEnd svd m ms t) (G := fun _ _ => True) h
    (wp_calculateSvdCoefficients (fun cs hcs => ⟨trivial, .stored cs hcs⟩) .failed)

end AnalyticsManager

end TPC.Analytics
