import TPC.Analytics.ChunkView
import TPC.Analytics.Models
import TPC.Lib.Fold

/-!
# The operations of a field collection

The members of `FieldCollection`, each as a program on the collection, so that a call that does not complete leaves
behind what it has written.

* `Code`, `allocate`; `reserve`, `clear`, `appendCoordinate`, `resizeFieldToCoordinates`, `insertCoordinatesRange`,
  `insertFieldRange`, `transformCoordinates`, `transformField`;
* `Op`, `Along`: a sequence of calls on a new collection;
* `Safe`, `Meets`, **`along_safe_iff`**: when every call completes or reports an error.
-/

namespace TPC.Analytics.Collection

open Arith Fold

variable {F : Type} [Arith F]

/-- Code that runs on a collection. It takes no locks. -/
abbrev Code (F : Type) : Type → Type := Prog (FieldCollection F) Exit Empty

/-- An allocation of room for `n` values: beyond `max_size` it throws, below it may. -/
def allocate (n : ℕ) : Code F Unit :=
  if vectorMax < n then Prog.throw (.exception .badAlloc)
  else Prog.choose fun granted => if granted then Prog.ret () else Prog.throw (.exception .badAlloc)

/-- `operator%` on `std::size_t`. -/
def remainder (a b : ℕ) : Call ℕ := if b = 0 then .error (.exception .divisionByZero) else .ok (a % b)

def reserve (capacity : ℕ) : Code F Unit := do
  allocate capacity
  allocate capacity

def clear : Code F Unit := do
  Prog.modify fun fd => { fd with coordinates := [] }
  Prog.modify fun fd => { fd with field := [] }

/-- `coordinates_.push_back(v)`. -/
def pushBack (v : F) : Code F Unit := do
  let fd ← Prog.get
  allocate (fd.coordinates.length + 1)
  Prog.modify fun fd => fd.pushCoordinate v

def appendCoordinate (first second third : F) : Code F Unit := do
  pushBack first
  pushBack second
  pushBack third

def resizeFieldToCoordinates : Code F Unit := do
  let fd ← Prog.get
  allocate fd.coordinates.length
  Prog.modify FieldCollection.resizeFieldToCoordinates

/-- The two insertions: the checks, and `insert` at the end of the buffer. -/
def insertRange (emptyError : String) (buffer : FieldCollection F → List F)
    (store : FieldCollection F → List F → FieldCollection F) (data : List F) : Code F Unit :=
  if data.isEmpty then Prog.throw (.unexpected emptyError)
  else do
    let fd ← Prog.get
    let rest ← Prog.ofExcept (remainder data.length fd.dimension)
    if rest ≠ 0 then Prog.throw (.unexpected "Buffer size is not divisible by its dimension")
    else do
      allocate ((buffer fd).length + data.length)
      Prog.modify fun fd => store fd (buffer fd ++ data)

def insertCoordinatesRange (coordinatesData : List F) : Code F Unit :=
  insertRange "Coordinates data is empty" FieldCollection.coordinates
    (fun fd coordinates => { fd with coordinates := coordinates }) coordinatesData

def insertFieldRange (fieldData : List F) : Code F Unit :=
  insertRange "Field data is empty" FieldCollection.field (fun fd field => { fd with field := field }) fieldData

/-- The body of the loop of `transform_coordinates`: `point[0]` and `point[1]` of a chunk. -/
def transformPoint (targetType : CoordinateType) (point : Window) : Code F Unit := do
  let fd ← Prog.get
  let first ← Prog.ofExcept (readAt (point.elements fd.coordinates) 0)
  let second ← Prog.ofExcept (readAt (point.elements fd.coordinates) 1)
  match targetType with
  | .cylindric => do
    Prog.modify fun fd => { fd with coordinates := fd.coordinates.set point.offset (hypot first second) }
    Prog.modify fun fd => { fd with coordinates := fd.coordinates.set (point.offset + 1) (atan2 second first) }
  | .cartesian => do
    Prog.modify fun fd => { fd with coordinates := fd.coordinates.set point.offset (first * cos second) }
    Prog.modify fun fd => { fd with coordinates := fd.coordinates.set (point.offset + 1) (first * sin second) }

def transformCoordinates (targetType : CoordinateType) : Code F Unit := do
  let fd ← Prog.get
  if fd.coordinates.isEmpty then Prog.throw (.unexpected "Coordinates collection is empty")
  else if targetType = fd.coordinatesType then Prog.throw (.unexpected "Can`t transform coordinates")
  else do
    let chunks ← Prog.ofExcept (ChunkView.create fd.coordinates.length fd.dimension)
    chunks.forEach (transformPoint targetType)
    Prog.modify fun fd => { fd with coordinatesType := targetType }

/-- The body of the loop of `transform_field`. -/
def rotateField (offset : ℕ) : Code F Unit := do
  let fd ← Prog.get
  let phi ← Prog.ofExcept (readAt fd.coordinates (offset + 1))
  let br ← Prog.ofExcept (readAt fd.field offset)
  let bphi ← Prog.ofExcept (readAt fd.field (offset + 1))
  Prog.modify fun fd => { fd with field := fd.field.set offset (br * cos phi - bphi * sin phi) }
  Prog.modify fun fd => { fd with field := fd.field.set (offset + 1) (br * sin phi + bphi * cos phi) }

/-- `transform_field`; a loop `for (offset = 0; offset < size; offset += 3)` runs `(size + 2) / 3` times. -/
def transformField (targetType : CoordinateType) : Code F Unit := do
  let fd ← Prog.get
  if fd.field.isEmpty then Prog.throw (.unexpected "Field collection is empty")
  else if fd.fieldType = targetType then Prog.ret ()
  else if fd.dimension ≠ 3 then Prog.throw (.unexpected "Only 3D fields are supported")
  else if fd.fieldType ≠ .cylindric ∨ targetType ≠ .cartesian then
    Prog.throw (.unexpected "Unsupported field transformation")
  else if fd.coordinatesType ≠ .cylindric then Prog.throw (.unexpected "Coordinates must be cylindrical")
  else if fd.coordinates.length ≠ fd.field.length then
    Prog.throw (.unexpected "Coordinates and field sizes differ")
  else do
    Prog.each (fun i => rotateField (i * 3)) (List.range ((fd.field.length + 2) / 3))
    Prog.modify fun fd => { fd with fieldType := .cartesian }

/-- A call, with its arguments. -/
inductive Op (F : Type)
  | reserve (capacity : ℕ)
  | clear
  | appendCoordinate (first second third : F)
  | resizeFieldToCoordinates
  | insertCoordinatesRange (coordinatesData : List F)
  | insertFieldRange (fieldData : List F)
  | transformCoordinates (targetType : CoordinateType)
  | transformField (targetType : CoordinateType)

/-- The code of a call. -/
def Op.code : Op F → Code F Unit
  | .reserve capacity => Collection.reserve capacity
  | .clear => Collection.clear
  | .appendCoordinate first second third => Collection.appendCoordinate first second third
  | .resizeFieldToCoordinates => Collection.resizeFieldToCoordinates
  | .insertCoordinatesRange coordinatesData => Collection.insertCoordinatesRange coordinatesData
  | .insertFieldRange fieldData => Collection.insertFieldRange fieldData
  | .transformCoordinates targetType => Collection.transformCoordinates targetType
  | .transformField targetType => Collection.transformField targetType

/-- How a call may end: it completes, or it reports an error, by `std::unexpected` or by the exception of `ChunkView`,
and leaves the collection as it was. -/
def Reported (fd : FieldCollection F) : Except Exit Unit → FieldCollection F → Prop
  | .ok _, _ => True
  | .error (.unexpected _), fd' => fd' = fd
  | .error (.exception fault), fd' => fault = .invalidArgument "Chunk size must be non-zero" ∧ fd' = fd

/-- The call ends so. Memory below `max_size` is granted. -/
def Safe (fd : FieldCollection F) (op : Op F) : Prop :=
  ∃ r fd', Prog.exec op.code fd = some (r, fd') ∧ Reported fd r fd'

/-- Every call of a sequence has the property, in the state it is made in. -/
def Along (P : FieldCollection F → Op F → Prop) : FieldCollection F → List (Op F) → Prop
  | _, [] => True
  | fd, op :: ops => P fd op ∧ ∀ r fd', Prog.exec op.code fd = some (r, fd') → Along P fd' ops

/-- When a call ends so. -/
def Meets (fd : FieldCollection F) : Op F → Prop
  | .reserve capacity => capacity ≤ vectorMax
  | .appendCoordinate _ _ _ => fd.coordinates.length + 3 ≤ vectorMax
  | .insertCoordinatesRange data => data ≠ [] → fd.dimension ≠ 0 ∧
      (data.length % fd.dimension = 0 → fd.coordinates.length + data.length ≤ vectorMax)
  | .insertFieldRange data => data ≠ [] → fd.dimension ≠ 0 ∧
      (data.length % fd.dimension = 0 → fd.field.length + data.length ≤ vectorMax)
  | .transformCoordinates targetType => fd.coordinates ≠ [] → targetType ≠ fd.coordinatesType → fd.dimension ≠ 0 →
      fd.dimension ≠ 1 ∧ fd.coordinates.length % fd.dimension ≠ 1
  | .clear | .resizeFieldToCoordinates | .transformField _ => True

/-! ## What each call does -/

section Exec

variable {fd : FieldCollection F}

omit [Arith F] in
theorem exec_allocate (n : ℕ) : Prog.exec (allocate n : Code F Unit) fd =
    some (if vectorMax < n then .error (.exception .badAlloc) else .ok (), fd) := by
  unfold allocate
  split_ifs <;> rfl

omit [Arith F] in
theorem exec_reserve (capacity : ℕ) : Prog.exec (reserve capacity : Code F Unit) fd =
    some (if vectorMax < capacity then .error (.exception .badAlloc) else .ok (), fd) := by
  rw [reserve, Prog.exec_bind, exec_allocate]
  split_ifs with h
  · rfl
  · rw [Option.bind_some, exec_allocate, if_neg h]

omit [Arith F] in
theorem exec_pushBack (v : F) : Prog.exec (pushBack v) fd =
    some (if vectorMax < fd.coordinates.length + 1 then (.error (.exception .badAlloc), fd)
      else (.ok (), fd.pushCoordinate v)) := by
  rw [pushBack, Prog.exec_bind_ok (Prog.exec_get _), Prog.exec_bind, exec_allocate]
  split_ifs <;> rfl

omit [Arith F] in
theorem exec_appendCoordinate (a b c : F) (h : fd.coordinates.length + 3 ≤ vectorMax) :
    Prog.exec (appendCoordinate a b c) fd =
      some (.ok (), ((fd.pushCoordinate a).pushCoordinate b).pushCoordinate c) := by
  rw [appendCoordinate, Prog.exec_bind, exec_pushBack, if_neg (by omega), Option.bind_some, Prog.exec_bind,
    exec_pushBack, if_neg (by simp [FieldCollection.pushCoordinate]; omega), Option.bind_some, exec_pushBack,
    if_neg (by simp [FieldCollection.pushCoordinate]; omega)]

omit [Arith F] in
/-- Without room for all three, some of them may have been written. -/
theorem exec_appendCoordinate_error (a b c : F) (h : ¬ fd.coordinates.length + 3 ≤ vectorMax) :
    ∃ fd', Prog.exec (appendCoordinate a b c) fd = some (.error (.exception .badAlloc), fd') := by
  rw [appendCoordinate, Prog.exec_bind, exec_pushBack]
  split_ifs with h₁
  · exact ⟨fd, rfl⟩
  rw [Option.bind_some, Prog.exec_bind, exec_pushBack]
  split_ifs with h₂
  · exact ⟨_, rfl⟩
  rw [Option.bind_some, exec_pushBack, if_pos (by simp [FieldCollection.pushCoordinate]; omega)]
  exact ⟨_, rfl⟩

theorem exec_resizeFieldToCoordinates (h : fd.coordinates.length ≤ vectorMax) :
    Prog.exec (resizeFieldToCoordinates : Code F Unit) fd = some (.ok (), fd.resizeFieldToCoordinates) := by
  rw [resizeFieldToCoordinates, Prog.exec_bind_ok (Prog.exec_get _), Prog.exec_bind, exec_allocate,
    if_neg (Nat.not_lt.mpr h)]
  rfl

omit [Arith F] in
/-- **An insertion.** -/
theorem exec_insertRange (emptyError : String) (buffer : FieldCollection F → List F)
    (store : FieldCollection F → List F → FieldCollection F) (data : List F) :
    Prog.exec (insertRange emptyError buffer store data) fd = some (
      if data = [] then (.error (.unexpected emptyError), fd)
      else if fd.dimension = 0 then (.error (.exception .divisionByZero), fd)
      else if data.length % fd.dimension ≠ 0 then
        (.error (.unexpected "Buffer size is not divisible by its dimension"), fd)
      else if vectorMax < (buffer fd).length + data.length then (.error (.exception .badAlloc), fd)
      else (.ok (), store fd (buffer fd ++ data))) := by
  unfold insertRange
  simp only [List.isEmpty_iff]
  split_ifs with hempty hzero hrest hroom
  · rfl
  all_goals rw [Prog.exec_bind_ok (Prog.exec_get _), remainder]
  · rw [if_pos hzero]
    rfl
  all_goals rw [if_neg hzero, Prog.exec_bind_ok (Prog.exec_ofExcept _ _)]
  · rw [if_pos hrest]
    rfl
  all_goals rw [if_neg hrest, Prog.exec_bind, exec_allocate]
  · rw [if_pos hroom]
    rfl
  · rw [if_neg hroom]
    rfl

section Insert

variable (emptyError : String) (buffer : FieldCollection F → List F)
  (store : FieldCollection F → List F → FieldCollection F) {data : List F}

omit [Arith F] in
/-- With a dimension, and room for the data, it is refused or carried out. -/
theorem insertRange_cases (h : data ≠ [] → fd.dimension ≠ 0 ∧
      (data.length % fd.dimension = 0 → (buffer fd).length + data.length ≤ vectorMax)) :
    (∃ e, Prog.exec (insertRange emptyError buffer store data) fd = some (.error (.unexpected e), fd)) ∨
      Prog.exec (insertRange emptyError buffer store data) fd = some (.ok (), store fd (buffer fd ++ data)) ∧
        fd.dimension ∣ data.length ∧ (buffer fd).length + data.length ≤ vectorMax := by
  rw [exec_insertRange]
  by_cases hempty : data = []
  · exact .inl ⟨_, by rw [if_pos hempty]⟩
  obtain ⟨hzero, hroom⟩ := h hempty
  rw [if_neg hempty, if_neg hzero]
  by_cases hrest : data.length % fd.dimension = 0
  · refine .inr ⟨?_, Nat.dvd_of_mod_eq_zero hrest, hroom hrest⟩
    rw [if_neg (not_not.mpr hrest), if_neg (Nat.not_lt.mpr (hroom hrest))]
  · exact .inl ⟨_, by rw [if_pos hrest]⟩

omit [Arith F] in
theorem insertRange_error (h : ¬ (data ≠ [] → fd.dimension ≠ 0 ∧
      (data.length % fd.dimension = 0 → (buffer fd).length + data.length ≤ vectorMax))) :
    ∃ f ∈ [Fault.divisionByZero, .badAlloc],
      Prog.exec (insertRange emptyError buffer store data) fd = some (.error (.exception f), fd) := by
  obtain ⟨hne, h⟩ := Classical.not_imp.mp h
  rw [exec_insertRange, if_neg hne]
  by_cases hzero : fd.dimension = 0
  · exact ⟨.divisionByZero, by simp, by rw [if_pos hzero]⟩
  · obtain ⟨hrest, hroom⟩ := Classical.not_imp.mp fun hr => h ⟨hzero, hr⟩
    rw [if_neg hzero, if_neg (not_not.mpr hrest), if_pos (Nat.not_le.mp hroom)]
    exact ⟨.badAlloc, by simp, rfl⟩

end Insert

end Exec

/-! ## Coordinates -/

section Transform

variable {fd : FieldCollection F} {targetType : CoordinateType}

/-- The update of a chunk: its first two values are taken to the target type. -/
def pairUpdate (targetType : CoordinateType) : InPlace F where
  run
    | a :: b :: l => (transformPair targetType (a, b)).1 :: (transformPair targetType (a, b)).2 :: l
    | l => l
  length_run l := by
    match l with
    | [] | [_] | _ :: _ :: _ => rfl

theorem set_set_eq_replace {w : Window} {l rest : List F} {a b : F} (hw : w.offset + w.size ≤ l.length)
    (hl : w.elements l = a :: b :: rest) :
    (l.set w.offset (transformPair targetType (a, b)).1).set (w.offset + 1) (transformPair targetType (a, b)).2 =
      w.replace (pairUpdate targetType) l := by
  have htake : (l.take w.offset).length = w.offset := by
    rw [List.length_take]
    omega
  conv_lhs => rw [← w.append_elements l, hl]
  rw [List.set_append_right _ _ (by omega), htake, Nat.sub_self, List.set_append_right _ _ (by omega), htake,
    Nat.add_sub_cancel_left, Window.replace, hl]
  rfl

theorem exec_transformPoint {w : Window} (hsize : 2 ≤ w.size) (hw : w.offset + w.size ≤ fd.coordinates.length) :
    Prog.exec (transformPoint targetType w) fd =
      some (.ok (), { fd with coordinates := w.replace (pairUpdate targetType) fd.coordinates }) := by
  obtain ⟨a, b, rest, hl, -, -⟩ := Window.exists_elements_eq hsize hw
  rw [transformPoint, Prog.exec_bind_ok (Prog.exec_get _), hl, ← set_set_eq_replace hw hl]
  cases targetType <;> rfl

theorem exec_transformPoint_error {w : Window} (hpos : 0 < w.size) (hsize : ¬ 2 ≤ w.size)
    (hw : w.offset + w.size ≤ fd.coordinates.length) :
    Prog.exec (transformPoint targetType w) fd = some (.error (.exception .outOfRange), fd) := by
  have hlength := Window.length_elements hw
  obtain ⟨a, hl⟩ : ∃ a, w.elements fd.coordinates = [a] := List.length_eq_one_iff.mp (by omega)
  rw [transformPoint, Prog.exec_bind_ok (Prog.exec_get _), hl]
  rfl

/-- The view that `transform_coordinates` makes. -/
def view (fd : FieldCollection F) (h : fd.dimension ≠ 0) : ChunkView := ⟨fd.coordinates.length, fd.dimension, h⟩

variable (h : fd.dimension ≠ 0)

/-- **The loop over the chunks**, when all have two values. -/
theorem exec_forEach_transformPoint (hsize : ∀ w ∈ (view fd h).chunks, 2 ≤ w.size) :
    Prog.exec ((view fd h).forEach (transformPoint targetType)) fd = some (.ok (), { fd with
      coordinates := Window.mapAll (pairUpdate targetType) (view fd h).chunks fd.coordinates }) := by
  have hlength : fd.coordinates.length = (view fd h).size := rfl
  refine ChunkView.exec_forEach (fun l => { fd with coordinates := l }) (pairUpdate targetType) (fun w hw l hl => ?_)
    hlength
  have hstop := (ChunkView.tiles_chunks.bounds hw).2
  rw [← hl] at hstop
  exact @exec_transformPoint F _ { fd with coordinates := l } targetType w (hsize w hw) hstop

theorem exec_forEach_transformPoint_error (hsize : ¬ ∀ w ∈ (view fd h).chunks, 2 ≤ w.size) :
    ∃ fd', Prog.exec ((view fd h).forEach (transformPoint targetType)) fd =
      some (.error (.exception .outOfRange), fd') := by
  rw [ChunkView.forEach_eq]
  refine Prog.exec_each_error (fun fd' => fd'.coordinates.length = (view fd h).size) (fun w : Window => 2 ≤ w.size)
    ?_ ?_ (by simpa using hsize) rfl
  · intro w hw htwo fd' hfd'
    have hstop := (ChunkView.tiles_chunks.bounds hw).2
    exact ⟨_, exec_transformPoint htwo (hfd' ▸ hstop), (Window.length_replace _ _ _).trans hfd'⟩
  · intro w hw htwo fd' hfd'
    have hbounds := (view fd h).partitions.inBounds w hw
    exact ⟨_, exec_transformPoint_error hbounds.1 htwo (hfd' ▸ hbounds.2)⟩

theorem exec_transformCoordinates_of_empty (hempty : fd.coordinates = []) :
    Prog.exec (transformCoordinates targetType) fd =
      some (.error (.unexpected "Coordinates collection is empty"), fd) := by
  rw [transformCoordinates, Prog.exec_bind_ok (Prog.exec_get _), if_pos (by rw [hempty]; rfl)]
  rfl

section Nonempty

variable (hne : fd.coordinates ≠ [])

include hne

theorem exec_transformCoordinates_of_eq (htype : targetType = fd.coordinatesType) :
    Prog.exec (transformCoordinates targetType) fd =
      some (.error (.unexpected "Can`t transform coordinates"), fd) := by
  rw [transformCoordinates, Prog.exec_bind_ok (Prog.exec_get _), if_neg (by rwa [List.isEmpty_iff]), if_pos htype]
  rfl

variable (htype : targetType ≠ fd.coordinatesType)

include htype

theorem exec_transformCoordinates_of_zero (hzero : fd.dimension = 0) :
    Prog.exec (transformCoordinates targetType) fd =
      some (.error (.exception (.invalidArgument "Chunk size must be non-zero")), fd) := by
  rw [transformCoordinates, Prog.exec_bind_ok (Prog.exec_get _), if_neg (by rwa [List.isEmpty_iff]), if_neg htype,
    ChunkView.create, dif_pos hzero]
  rfl

theorem exec_transformCoordinates_of_ne : Prog.exec (transformCoordinates targetType) fd =
    Prog.exec ((view fd h).forEach (transformPoint targetType) >>= fun _ =>
      Prog.modify fun fd => { fd with coordinatesType := targetType }) fd := by
  rw [transformCoordinates, Prog.exec_bind_ok (Prog.exec_get _), if_neg (by rwa [List.isEmpty_iff]), if_neg htype,
    ChunkView.create_of_ne h]
  rfl

/-- **A transformation that is carried out.** -/
theorem exec_transformCoordinates (hsize : ∀ w ∈ (view fd h).chunks, 2 ≤ w.size) :
    Prog.exec (transformCoordinates targetType) fd = some (.ok (), { fd with
      coordinates := Window.mapAll (pairUpdate targetType) (view fd h).chunks fd.coordinates
      coordinatesType := targetType }) := by
  rw [exec_transformCoordinates_of_ne h hne htype, Prog.exec_bind_ok (exec_forEach_transformPoint h hsize)]
  rfl

theorem exec_transformCoordinates_error (hsize : ¬ ∀ w ∈ (view fd h).chunks, 2 ≤ w.size) :
    ∃ fd', Prog.exec (transformCoordinates targetType) fd = some (.error (.exception .outOfRange), fd') := by
  obtain ⟨fd', hexec⟩ : ∃ fd', Prog.exec ((view fd h).forEach (transformPoint targetType)) fd = _ :=
    exec_forEach_transformPoint_error h hsize
  exact ⟨fd', by rw [exec_transformCoordinates_of_ne h hne htype, Prog.exec_bind_error hexec]⟩

end Nonempty

end Transform

/-! ## The field -/

section Field

variable {fd fd' : FieldCollection F} {targetType : CoordinateType}

/-- The Cartesian components of a field triple at a coordinate triple, both cylindrical. -/
def turned (c b : F × F × F) : F × F × F :=
  (b.1 * cos c.2.1 - b.2.1 * sin c.2.1, b.1 * sin c.2.1 + b.2.1 * cos c.2.1, b.2.2)

variable {cs bs : List (F × F × F)}

theorem exec_rotateField {i : ℕ} {c b : F × F × F} (hcs : fd.coordinates = flat cs) (hbs : fd.field = flat bs)
    (hc : cs[i]? = some c) (hb : bs[i]? = some b) :
    Prog.exec (rotateField (i * 3)) fd = some (.ok (), { fd with field := flat (bs.set i (turned c b)) }) := by
  obtain ⟨-, hphi, -⟩ := flat_getElem? cs i
  obtain ⟨hbr, hbphi, -⟩ := flat_getElem? bs i
  rw [hc, ← hcs] at hphi
  rw [hb, ← hbs] at hbr hbphi
  have hset : ((flat bs).set (i * 3) (turned c b).1).set (i * 3 + 1) (turned c b).2.1 =
      flat (bs.set i (turned c b)) := flat_set_pair hb _ _
  rw [rotateField, Prog.exec_bind_ok (Prog.exec_get _), readAt_eq_ok.mpr hphi, readAt_eq_ok.mpr hbr,
    readAt_eq_ok.mpr hbphi, ← hset, ← hbs]
  rfl

/-- **The loop of the rotation.** -/
theorem exec_rotations (hcs : fd.coordinates = flat cs) (hbs : fd.field = flat bs) (hlen : cs.length = bs.length) :
    Prog.exec (Prog.each (fun i => rotateField (i * 3)) (List.range bs.length)) fd =
      some (.ok (), { fd with field := flat (List.zipWith turned cs bs) }) := by
  have hturn : List.zipWith turned cs bs = (List.range bs.length).foldl
      (fun bs i => bs.modify i (turned (cs.getD i (0, 0, 0)))) bs := by
    refine List.ext_getElem? fun i => ?_
    rw [getElem?_foldl_modify, List.getElem?_zipWith]
    by_cases hi : i < bs.length
    · rw [if_pos hi, List.getElem?_eq_getElem (hlen ▸ hi), List.getElem?_eq_getElem hi, List.getD_eq_getElem _ _ (hlen ▸ hi)]
      rfl
    · rw [if_neg hi, List.getElem?_eq_none (not_lt.mp hi), List.getElem?_eq_none (by omega)]
  rw [hturn]
  have hloop := Prog.exec_each (fun bs => ({ fd with field := flat bs } : FieldCollection F))
    (fun bs' : List (F × F × F) => bs'.length = bs.length) (fun i => rotateField (i * 3))
    (fun bs i => bs.modify i (turned (cs.getD i (0, 0, 0)))) (l := List.range bs.length)
    (fun i hi bs' hbs' => ⟨?_, ?_⟩) rfl
  · rwa [← hbs] at hloop
  · have hi' : i < bs'.length := hbs' ▸ List.mem_range.mp hi
    have hc : cs[i]? = some (cs.getD i (0, 0, 0)) := by
      rw [List.getD_eq_getElem _ _ (by omega), List.getElem?_eq_getElem]
    have hmodify : ∀ f : F × F × F → F × F × F, bs'.modify i f = bs'.set i (f bs'[i]) := by
      intro f
      refine List.ext_getElem? fun j => ?_
      rw [List.getElem?_modify, List.getElem?_set]
      by_cases hj : i = j
      · subst hj
        simp [hi']
      · simp [hj]
    rw [hmodify]
    exact exec_rotateField hcs rfl hc (List.getElem?_eq_getElem hi')
  · simpa using hbs'

/-- **A field that is transformed.** -/
theorem exec_transformField (hcs : fd.coordinates = flat cs) (hbs : fd.field = flat bs) (hlen : cs.length = bs.length)
    (hne : ¬ fd.field.isEmpty) (hdim : fd.dimension = 3) (hfield : fd.fieldType = .cylindric)
    (hcoordinates : fd.coordinatesType = .cylindric) : Prog.exec (transformField .cartesian) fd =
      some (.ok (), { fd with field := flat (List.zipWith turned cs bs), fieldType := .cartesian }) := by
  have hsizes : fd.coordinates.length = fd.field.length := by
    rw [hcs, hbs, length_flat, length_flat, hlen]
  have hcount : (fd.field.length + 2) / 3 = bs.length := by
    rw [hbs, length_flat]
    omega
  rw [transformField, Prog.exec_bind_ok (Prog.exec_get _), if_neg hne, if_neg (by rw [hfield]; decide),
    if_neg (not_not.mpr hdim), if_neg (by simp [hfield]), if_neg (not_not.mpr hcoordinates),
    if_neg (not_not.mpr hsizes), hcount, Prog.exec_bind_ok (exec_rotations hcs hbs hlen)]
  rfl

/-- **A transformation**, when the field holds triples: it is refused, or there is nothing to do, or it is carried
out. -/
theorem transformField_cases (targetType : CoordinateType) (h : fd.dimension = 3 → 3 ∣ fd.field.length) :
    (∃ e, Prog.exec (transformField targetType) fd = some (.error (.unexpected e), fd)) ∨
      Prog.exec (transformField targetType) fd = some (.ok (), fd) ∨
      ∃ cs bs, fd.coordinates = flat cs ∧ fd.field = flat bs ∧ cs.length = bs.length ∧
        Prog.exec (transformField targetType) fd =
          some (.ok (), { fd with field := flat (List.zipWith turned cs bs), fieldType := .cartesian }) := by
  rw [transformField, Prog.exec_bind_ok (Prog.exec_get _)]
  split_ifs with hempty htype hdim htypes hcoordinates hsizes
  case neg =>
    obtain ⟨n, hn⟩ := h (not_not.mp hdim)
    rw [Nat.mul_comm] at hn
    obtain ⟨cs, hcs, hcs'⟩ := exists_flat n fd.coordinates ((not_not.mp hsizes).trans hn)
    obtain ⟨bs, hbs, hbs'⟩ := exists_flat n fd.field hn
    have hcount : (fd.field.length + 2) / 3 = bs.length := by omega
    have hlen : cs.length = bs.length := hcs.trans hbs.symm
    refine .inr (.inr ⟨cs, bs, hcs'.symm, hbs'.symm, hlen, ?_⟩)
    rw [hcount, Prog.exec_bind_ok (exec_rotations hcs'.symm hbs'.symm hlen)]
    rfl
  · exact .inl ⟨_, rfl⟩
  · exact .inr (.inl rfl)
  all_goals exact .inl ⟨_, rfl⟩

end Field

/-! ## Sequences of calls -/

/-- What calls that end as they should keep. -/
structure Inv (fd : FieldCollection F) : Prop where
  coordinates : fd.coordinates.length ≤ vectorMax
  field : fd.dimension = 3 → 3 ∣ fd.field.length ∧ 3 ∣ fd.coordinates.length

variable {fd fd' : FieldCollection F} {op : Op F} {r : Except Exit Unit}

omit [Arith F] in
theorem inv_new (dimension : ℕ) (coordinatesType fieldType : CoordinateType) :
    Inv (FieldCollection.new dimension coordinatesType fieldType : FieldCollection F) :=
  ⟨Nat.zero_le _, fun _ => ⟨dvd_zero 3, dvd_zero 3⟩⟩

/-- **A call that meets the condition** ends as it should. -/
theorem Inv.of_meets (h : Inv fd) (hm : Meets fd op) :
    ∃ r fd', Prog.exec op.code fd = some (r, fd') ∧ Reported fd r fd' ∧ Inv fd' := by
  cases op with
  | reserve capacity =>
    have hexec : Prog.exec (Collection.reserve capacity) fd = _ := exec_reserve capacity
    rw [if_neg (Nat.not_lt.mpr hm)] at hexec
    exact ⟨.ok (), fd, hexec, trivial, h⟩
  | clear => exact ⟨.ok (), _, rfl, trivial, Nat.zero_le _, fun _ => ⟨dvd_zero 3, dvd_zero 3⟩⟩
  | appendCoordinate a b c =>
    have hroom : fd.coordinates.length + 3 ≤ vectorMax := hm
    refine ⟨.ok (), _, exec_appendCoordinate a b c hroom, trivial, ?_, fun hd => ?_⟩
    · simpa [FieldCollection.pushCoordinate] using hroom
    · obtain ⟨hf, hc⟩ := h.field hd
      exact ⟨hf, by simpa [FieldCollection.pushCoordinate] using Nat.dvd_add hc (dvd_refl 3)⟩
  | resizeFieldToCoordinates =>
    refine ⟨.ok (), _, exec_resizeFieldToCoordinates h.coordinates, trivial, h.coordinates, fun hd => ?_⟩
    obtain ⟨-, hc⟩ := h.field hd
    exact ⟨by simpa [FieldCollection.resizeFieldToCoordinates] using hc, hc⟩
  | insertCoordinatesRange data =>
    rcases insertRange_cases "Coordinates data is empty" FieldCollection.coordinates
      (fun fd coordinates => { fd with coordinates := coordinates }) hm with ⟨e, hexec⟩ | ⟨hexec, hdvd, hroom⟩
    · exact ⟨_, fd, hexec, rfl, h⟩
    · refine ⟨_, _, hexec, trivial, by simpa using hroom, fun hd => ?_⟩
      obtain ⟨hf, hc⟩ := h.field hd
      rw [show fd.dimension = 3 from hd] at hdvd
      exact ⟨hf, by simpa using Nat.dvd_add hc hdvd⟩
  | insertFieldRange data =>
    rcases insertRange_cases "Field data is empty" FieldCollection.field
      (fun fd field => { fd with field := field }) hm with ⟨e, hexec⟩ | ⟨hexec, hdvd, -⟩
    · exact ⟨_, fd, hexec, rfl, h⟩
    · refine ⟨_, _, hexec, trivial, h.coordinates, fun hd => ?_⟩
      obtain ⟨hf, hc⟩ := h.field hd
      rw [show fd.dimension = 3 from hd] at hdvd
      exact ⟨by simpa using Nat.dvd_add hf hdvd, hc⟩
  | transformCoordinates targetType =>
    by_cases hempty : fd.coordinates = []
    · exact ⟨_, fd, exec_transformCoordinates_of_empty hempty, rfl, h⟩
    by_cases htype : targetType = fd.coordinatesType
    · exact ⟨_, fd, exec_transformCoordinates_of_eq hempty htype, rfl, h⟩
    by_cases hzero : fd.dimension = 0
    · exact ⟨_, fd, exec_transformCoordinates_of_zero hempty htype hzero, ⟨rfl, rfl⟩, h⟩
    have hsize := (ChunkView.two_le_size_iff (v := view fd hzero) (List.length_pos_iff.mpr hempty)).mpr
      (hm hempty htype hzero)
    have hlength := Window.length_mapAll (pairUpdate targetType)
      (ChunkView.tiles_chunks (v := view fd hzero))
    refine ⟨_, _, exec_transformCoordinates hzero hempty htype hsize, trivial, hlength.le.trans h.coordinates,
      fun hd => ?_⟩
    obtain ⟨hf, hc⟩ := h.field hd
    exact ⟨hf, hlength ▸ hc⟩
  | transformField targetType =>
    rcases transformField_cases targetType fun hd => (h.field hd).1 with ⟨e, hexec⟩ | hexec | ⟨cs, bs, hcs, hbs, hlen, hexec⟩
    · exact ⟨_, fd, hexec, rfl, h⟩
    · exact ⟨_, fd, hexec, trivial, h⟩
    · refine ⟨_, _, hexec, trivial, h.coordinates, fun hd => ⟨?_, (h.field hd).2⟩⟩
      exact ⟨_, (length_flat _).trans (Nat.mul_comm _ _)⟩

/-- **A call that does not** ends by an exception of another kind. -/
theorem exec_of_not_meets (hm : ¬ Meets fd op) : ∃ f ∈ [Fault.divisionByZero, .outOfRange, .badAlloc],
    ∃ fd', Prog.exec op.code fd = some (.error (.exception f), fd') := by
  have hsub : [Fault.divisionByZero, .badAlloc] ⊆ [Fault.divisionByZero, .outOfRange, .badAlloc] := by decide
  cases op with
  | reserve capacity =>
    have hexec : Prog.exec (Collection.reserve capacity) fd = _ := exec_reserve capacity
    rw [if_pos (Nat.not_le.mp hm)] at hexec
    exact ⟨.badAlloc, by simp, fd, hexec⟩
  | clear | resizeFieldToCoordinates | transformField => exact absurd trivial hm
  | appendCoordinate a b c => exact ⟨.badAlloc, by simp, exec_appendCoordinate_error a b c hm⟩
  | insertCoordinatesRange data =>
    obtain ⟨f, hf, hexec⟩ := insertRange_error "Coordinates data is empty" FieldCollection.coordinates
      (fun fd coordinates => { fd with coordinates := coordinates }) hm
    exact ⟨f, hsub hf, fd, hexec⟩
  | insertFieldRange data =>
    obtain ⟨f, hf, hexec⟩ := insertRange_error "Field data is empty" FieldCollection.field
      (fun fd field => { fd with field := field }) hm
    exact ⟨f, hsub hf, fd, hexec⟩
  | transformCoordinates targetType =>
    obtain ⟨hempty, hm⟩ := Classical.not_imp.mp hm
    obtain ⟨htype, hm⟩ := Classical.not_imp.mp hm
    obtain ⟨hzero, hm⟩ := Classical.not_imp.mp hm
    have hsize := mt (ChunkView.two_le_size_iff (v := view fd hzero) (List.length_pos_iff.mpr hempty)).mp hm
    exact ⟨.outOfRange, by simp, exec_transformCoordinates_error hzero hempty htype hsize⟩

/-- **A call is safe exactly when it meets the condition.** -/
theorem Inv.safe_iff (h : Inv fd) : Safe fd op ↔ Meets fd op := by
  constructor
  · intro hs
    by_contra hm
    obtain ⟨f, hf, fd', hexec⟩ := exec_of_not_meets hm
    obtain ⟨r, fd₁, hexec₁, hr⟩ := hs
    rw [hexec] at hexec₁
    cases hexec₁
    rw [hr.1] at hf
    simp at hf
  · intro hm
    obtain ⟨r, fd', hexec, hr, -⟩ := h.of_meets hm
    exact ⟨r, fd', hexec, hr⟩

/-- **Calls that report what they cannot do**: every call of a sequence on a new collection completes, or reports an
error and changes nothing, exactly when every call meets the condition. -/
theorem along_safe_iff (dimension : ℕ) (coordinatesType fieldType : CoordinateType) (ops : List (Op F)) :
    Along Safe (.new dimension coordinatesType fieldType) ops ↔
      Along Meets (.new dimension coordinatesType fieldType) ops := by
  have hinv : Inv (.new dimension coordinatesType fieldType : FieldCollection F) := inv_new _ _ _
  generalize (FieldCollection.new dimension coordinatesType fieldType : FieldCollection F) = fd at hinv
  induction ops generalizing fd with
  | nil => rfl
  | cons op ops ih =>
    rw [Along, Along, hinv.safe_iff]
    refine and_congr_right fun hm => ?_
    obtain ⟨r, fd', hexec, -, hinv'⟩ := hinv.of_meets hm
    refine forall_congr' fun r₁ => forall_congr' fun fd₁ => imp_congr_right fun hexec₁ => ?_
    rw [hexec] at hexec₁
    cases hexec₁
    exact ih fd' hinv'

/-- In a collection of dimension 0 an insertion takes a remainder by zero. -/
theorem not_forall_along_safe : ¬ ∀ (dimension : ℕ) (coordinatesType fieldType : CoordinateType) (ops : List (Op ℝ)),
    Along Safe (.new dimension coordinatesType fieldType) ops := by
  intro h
  obtain ⟨⟨r, fd', hexec, hr⟩, -⟩ := h 0 .cartesian .cartesian [.insertCoordinatesRange [0]]
  cases hexec
  cases hr.1

end TPC.Analytics.Collection
