import TPC.Analytics.Collection

/-!
# Converting the coordinates of a collection

* `converted`: the collection after `transform_coordinates`;
* `Converts`, **`converts`**: what the call changes, and what it leaves;
* `PrincipalPoints`, **`transformCoordinates_roundTrip`**: the two conversions undo each other.
-/

namespace TPC.Analytics.Collection

open Arith

variable {F : Type} [Arith F] {fd fd' : FieldCollection F} {targetType : CoordinateType}

theorem pairUpdate_getElem? (targetType : CoordinateType) (l : List F) {i : ℕ} (hi : 2 ≤ i) :
    ((pairUpdate targetType).run l)[i]? = l[i]? := by
  obtain ⟨i, rfl⟩ := Nat.exists_eq_add_of_le' hi
  rcases l with _ | ⟨a, _ | ⟨b, l⟩⟩ <;> rfl

/-- The collection with every point taken to the target type. -/
def converted (fd : FieldCollection F) (h : fd.dimension ≠ 0) (targetType : CoordinateType) : FieldCollection F :=
  { fd with
    coordinates := Window.mapAll (pairUpdate targetType) (view fd h).chunks fd.coordinates
    coordinatesType := targetType }

/-- **One conversion**, from `fd` to `fd'`. -/
structure Converts (targetType : CoordinateType) (fd fd' : FieldCollection F) : Prop where
  exec : Prog.exec (transformCoordinates targetType) fd = some (.ok (), fd')
  type : fd'.coordinatesType = targetType
  dimension : fd'.dimension = fd.dimension
  fieldType : fd'.fieldType = fd.fieldType
  field : fd'.field = fd.field
  length : fd'.coordinates.length = fd.coordinates.length
  /-- Of each point only the first two components change, -/
  kept : ∀ i, 2 ≤ i % fd.dimension → fd'.coordinates[i]? = fd.coordinates[i]?
  /-- and they are those of `PointComponents::transform_coordinates`. -/
  pointwise : fd.dimension = 3 → ∀ (j : ℕ) (p : Fin 3 → F), (∀ i : Fin 3, fd.coordinates[j * 3 + i]? = some (p i)) →
    ∀ q, q = (⟨p, fd.coordinatesType⟩ : PointComponents F).transformCoordinates targetType →
      q.coordinateType = fd'.coordinatesType ∧ ∀ i : Fin 3, fd'.coordinates[j * 3 + i]? = some (q.components i)

variable (h : fd.dimension ≠ 0)

theorem length_converted : (converted fd h targetType).coordinates.length = fd.coordinates.length :=
  Window.length_mapAll _ (ChunkView.tiles_chunks (v := view fd h))

omit [Arith F] in
theorem mem_chunks_view (hdvd : fd.dimension ∣ fd.coordinates.length) {w : Window} : w ∈ (view fd h).chunks ↔
    ∃ j, j * fd.dimension < fd.coordinates.length ∧ w = ⟨j * fd.dimension, fd.dimension⟩ :=
  ChunkView.mem_chunks_of_dvd hdvd

theorem converted_getElem? (targetType : CoordinateType) (hdvd : fd.dimension ∣ fd.coordinates.length) {j r : ℕ}
    (hj : j * fd.dimension < fd.coordinates.length) (hr : r < fd.dimension) :
    (converted fd h targetType).coordinates[j * fd.dimension + r]? =
      ((pairUpdate targetType).run ((⟨j * fd.dimension, fd.dimension⟩ : Window).elements fd.coordinates))[r]? :=
  Window.getElem?_mapAll _ (ChunkView.tiles_chunks (v := view fd h)) ((mem_chunks_view h hdvd).mpr ⟨j, hj, rfl⟩) hr

omit [Arith F] in
theorem elements_eq {l : List F} {j : ℕ} {p : Fin 3 → F} (hp : ∀ i : Fin 3, l[j * 3 + i]? = some (p i)) :
    (⟨j * 3, 3⟩ : Window).elements l = [p 0, p 1, p 2] := by
  refine List.ext_getElem? fun i => ?_
  by_cases hi : i < 3
  · rw [Window.getElem?_elements hi, hp ⟨i, hi⟩]
    interval_cases i <;> rfl
  · have hlength : ((⟨j * 3, 3⟩ : Window).elements l).length ≤ 3 := List.length_take_le _ _
    rw [List.getElem?_eq_none (by omega), List.getElem?_eq_none (by simpa using hi)]

theorem converts (fd : FieldCollection F) (targetType : CoordinateType) (h : fd.dimension ≠ 0)
    (hd : 2 ≤ fd.dimension) (hne : fd.coordinates ≠ []) (hdvd : fd.dimension ∣ fd.coordinates.length)
    (htype : targetType ≠ fd.coordinatesType) : Converts targetType fd (converted fd h targetType) where
  exec := by
    refine exec_transformCoordinates h hne htype fun w hw => ?_
    obtain ⟨j, -, rfl⟩ := (mem_chunks_view h hdvd).mp hw
    exact hd
  type := rfl
  dimension := rfl
  fieldType := rfl
  field := rfl
  length := length_converted h
  kept i hi := by
    by_cases hlt : i < fd.coordinates.length
    · have hindex : i / fd.dimension * fd.dimension + i % fd.dimension = i := Nat.div_add_mod' i fd.dimension
      have hr : i % fd.dimension < fd.dimension := Nat.mod_lt _ (by omega)
      have hstart : i / fd.dimension * fd.dimension < fd.coordinates.length := by omega
      have hget := converted_getElem? h targetType hdvd hstart hr
      rw [hindex, pairUpdate_getElem? _ _ hi, Window.getElem?_elements hr, hindex] at hget
      exact hget
    · rw [List.getElem?_eq_none (by rw [length_converted]; omega), List.getElem?_eq_none (by omega)]
  pointwise hthree j p hp q hq := by
    have hp₀ := List.getElem?_eq_some_iff.mp (hp 0)
    have hstart : j * fd.dimension < fd.coordinates.length := by
      rw [hthree]
      exact hp₀.1
    have hget : ∀ i : Fin 3, (converted fd h targetType).coordinates[j * 3 + i]? =
        ((pairUpdate targetType).run [p 0, p 1, p 2])[i]? := by
      intro i
      have hlt : (i : ℕ) < fd.dimension := by
        rw [hthree]
        exact i.isLt
      have hi := converted_getElem? h targetType hdvd hstart hlt
      rwa [hthree, elements_eq hp] at hi
    rw [PointComponents.transformCoordinates_of_ne htype] at hq
    subst hq
    refine ⟨rfl, fun i => (hget i).trans ?_⟩
    fin_cases i <;> rfl

/-! ## There and back -/

section RoundTrip

variable {fd : FieldCollection ℝ}

/-- Every point has `r > 0` and `-π < φ ≤ π`, or `r = 0` and `φ = 0`. -/
def PrincipalPoints (fd : FieldCollection ℝ) : Prop :=
  ∀ j r phi, fd.coordinates[j * fd.dimension]? = some r → fd.coordinates[j * fd.dimension + 1]? = some phi →
    Principal r phi

/-- Two conversions that undo each other at every point restore the collection. -/
theorem converted_converted (targetType : CoordinateType) (h : fd.dimension ≠ 0) (hd : 2 ≤ fd.dimension)
    (hdvd : fd.dimension ∣ fd.coordinates.length)
    (hback : ∀ j a b, fd.coordinates[j * fd.dimension]? = some a → fd.coordinates[j * fd.dimension + 1]? = some b →
      transformPair fd.coordinatesType (transformPair targetType (a, b)) = (a, b)) :
    converted (converted fd h targetType) h fd.coordinatesType = fd := by
  have hview : view (converted fd h targetType) h = view fd h :=
    congrArg (fun n => (⟨n, fd.dimension, h⟩ : ChunkView)) (length_converted h)
  have hcoordinates : Window.mapAll (pairUpdate fd.coordinatesType) (view fd h).chunks
      (Window.mapAll (pairUpdate targetType) (view fd h).chunks fd.coordinates) = fd.coordinates := by
    refine Window.mapAll_mapAll_self (ChunkView.tiles_chunks (v := view fd h)) fun w hw => ?_
    have hstop := (ChunkView.tiles_chunks.bounds hw).2
    obtain ⟨j, hj, rfl⟩ := (mem_chunks_view h hdvd).mp hw
    obtain ⟨a, b, rest, hl, ha, hb⟩ := Window.exists_elements_eq hd hstop
    have hpair := hback j a b ha hb
    rw [hl]
    show (transformPair _ _).1 :: (transformPair _ _).2 :: rest = _
    rw [Prod.mk.eta, hpair]
  show ({ fd with coordinates := _, coordinatesType := _ } : FieldCollection ℝ) = fd
  rw [hview]
  exact congrArg (fun l => ({ fd with coordinates := l } : FieldCollection ℝ)) hcoordinates

theorem principalPoints_converted (fd : FieldCollection ℝ) (h : fd.dimension ≠ 0) (hd : 2 ≤ fd.dimension)
    (hdvd : fd.dimension ∣ fd.coordinates.length) : PrincipalPoints (converted fd h .cylindric) := by
  intro j r phi hr hphi
  have hstart : j * fd.dimension < fd.coordinates.length := by
    rw [← length_converted h]
    exact (List.getElem?_eq_some_iff.mp hr).1
  have hw := (mem_chunks_view h hdvd).mpr ⟨j, hstart, rfl⟩
  have hstop := (ChunkView.tiles_chunks.bounds hw).2
  obtain ⟨a, b, rest, hl, -, -⟩ := Window.exists_elements_eq hd hstop
  have hfirst := converted_getElem? h .cylindric hdvd hstart (show 0 < fd.dimension by omega)
  have hsecond := converted_getElem? h .cylindric hdvd hstart (show 1 < fd.dimension by omega)
  rw [hl] at hfirst hsecond
  obtain rfl := Option.some.inj (hr.symm.trans hfirst)
  obtain rfl := Option.some.inj (hphi.symm.trans hsecond)
  exact principal_transformPair a b

/-- **There and back**: every conversion is carried out as stated; a Cartesian collection is restored, and a cylindrical
one exactly when its points have principal coordinates. -/
theorem transformCoordinates_roundTrip (hd : 2 ≤ fd.dimension) (hne : fd.coordinates ≠ [])
    (hdvd : fd.dimension ∣ fd.coordinates.length) :
    (∀ targetType, targetType ≠ fd.coordinatesType → ∃ fd', Converts targetType fd fd') ∧
      (fd.coordinatesType = .cartesian → ∃ fd', Converts .cylindric fd fd' ∧ Converts .cartesian fd' fd) ∧
      (fd.coordinatesType = .cylindric →
        ((∃ fd', Converts .cartesian fd fd' ∧ Converts .cylindric fd' fd) ↔ PrincipalPoints fd)) := by
  have h : fd.dimension ≠ 0 := by omega
  have hthere : ∀ targetType, targetType ≠ fd.coordinatesType →
      Converts targetType fd (converted fd h targetType) :=
    fun targetType htype => converts fd targetType h hd hne hdvd htype
  have hlength : ∀ targetType, (converted fd h targetType).coordinates.length = fd.coordinates.length :=
    fun _ => length_converted h
  have hback : ∀ targetType t, t ≠ targetType → Converts t (converted fd h targetType)
      (converted (converted fd h targetType) h t) := fun targetType t htype =>
    converts (converted fd h targetType) t h hd (by rwa [← List.length_pos_iff, hlength, List.length_pos_iff])
      (by rw [hlength]; exact hdvd) htype
  refine ⟨fun targetType htype => ⟨_, hthere targetType htype⟩, fun htype => ?_, fun htype => ⟨?_, fun hpoints => ?_⟩⟩
  · have hundo := converted_converted .cylindric h hd hdvd fun j a b _ _ => by
      rw [htype]
      exact transformPair_cartesian a b
    have hstep := hback .cylindric .cartesian (by decide)
    rw [htype] at hundo
    rw [hundo] at hstep
    exact ⟨_, hthere .cylindric (by rw [htype]; decide), hstep⟩
  · rintro ⟨fd', hthere', hback'⟩
    have hexec := (hthere .cartesian (by rw [htype]; decide)).exec
    rw [hthere'.exec] at hexec
    obtain rfl : fd' = converted fd h .cartesian := by
      cases hexec
      rfl
    have hexec := (hback .cartesian .cylindric (by decide)).exec
    rw [hback'.exec] at hexec
    have hfd : fd = converted (converted fd h .cartesian) h .cylindric := congrArg Prod.snd (Option.some.inj hexec)
    rw [hfd]
    exact principalPoints_converted (converted fd h .cartesian) h hd (by rw [hlength]; exact hdvd)
  · have hundo := converted_converted .cartesian h hd hdvd fun j a b ha hb => by
      rw [htype]
      exact transformPair_cylindric (hpoints j a b ha hb)
    have hstep := hback .cartesian .cylindric (by decide)
    rw [htype] at hundo
    rw [hundo] at hstep
    exact ⟨_, hthere .cartesian (by rw [htype]; decide), hstep⟩

/-- Three points, one of them on the axis. -/
def threePoints : FieldCollection ℝ := ⟨3, .cylindric, .cylindric, [1, 1, 0, 1, -1, 1, 0, 0, 1], []⟩

theorem principalPoints_threePoints : PrincipalPoints threePoints := by
  intro j r phi hr hphi
  have hpi := Real.pi_gt_three
  obtain hlt : j * 3 + 1 < 9 := (List.getElem?_eq_some_iff.mp hphi).1
  obtain rfl | rfl | rfl : j = 0 ∨ j = 1 ∨ j = 2 := by omega
  · cases hr
    cases hphi
    exact .inl ⟨one_pos, by linarith, by linarith⟩
  · cases hr
    cases hphi
    exact .inl ⟨one_pos, by linarith, by linarith⟩
  · cases hr
    cases hphi
    exact .inr ⟨rfl, rfl⟩

/-- `transformCoordinates_roundTrip` for these points. -/
theorem transformCoordinates_roundTrip_threePoints :
    ∃ fd', Converts .cartesian threePoints fd' ∧ Converts .cylindric fd' threePoints :=
  ((transformCoordinates_roundTrip (by decide) (List.cons_ne_nil _ _) (by decide)).2.2 rfl).mpr
    principalPoints_threePoints

end RoundTrip

end TPC.Analytics.Collection
