import TPC.Analytics.Manager
import TPC.Lib.Observer

/-!
# Export by path

`AnalyticsManager::export_to_vtk(std::string_view)` takes no lock. It looks at the stored collection again for
each span, and the exporter reads the elements through the spans, one after another.

* `Reading`, `SpanExporter`: an exporter that reads through spans; `SpanExporter.contents`: on given buffers;
  `ofContents`: one that reads everything first;
* `span`, `Reading.code`, `exportPathCode`: the steps of the call;
* `observes_exportPathCode`: they only read the stored collection;
* `exportToVtkPath`, **`answer_exportPathCode`**: what the call answers when nothing else runs.
-/

namespace TPC.Analytics

variable {F A : Type}

/-- What an exporter does with two spans: it reads elements, and ends with an answer. -/
inductive Reading (F A : Type)
  | done (answer : Call A)
  | coordinate (i : ℕ) (next : F → Reading F A)
  | field (i : ℕ) (next : F → Reading F A)

/-- An exporter, on the sizes of the field span and of the coordinate span and on a path. -/
abbrev SpanExporter (F A : Type) : Type := (fieldSize coordinatesSize : ℕ) → String → Reading F A

namespace Reading

/-- On buffers that do not change. -/
def on (field coordinates : List F) : Reading F A → Call A
  | done answer => answer
  | coordinate i next => readAt coordinates i >>= fun v => (next v).on field coordinates
  | .field i next => readAt field i >>= fun v => (next v).on field coordinates

/-- Read these coordinates. -/
def coordinates : List ℕ → (List F → Reading F A) → Reading F A
  | [], next => next []
  | i :: is, next => coordinate i fun v => coordinates is fun vs => next (v :: vs)

/-- Read these field values. -/
def fields : List ℕ → (List F → Reading F A) → Reading F A
  | [], next => next []
  | i :: is, next => .field i fun v => fields is fun vs => next (v :: vs)

theorem on_coordinates (field cs : List F) (is : List ℕ) (next : List F → Reading F A) :
    (coordinates is next).on field cs = is.mapM (readAt cs) >>= fun vs => (next vs).on field cs := by
  induction is generalizing next with
  | nil => rfl
  | cons i is ih =>
    rw [coordinates, on, List.mapM_cons, bind_assoc]
    refine bind_congr fun v => ?_
    rw [ih, bind_assoc]
    rfl

theorem on_fields (field cs : List F) (is : List ℕ) (next : List F → Reading F A) :
    (fields is next).on field cs = is.mapM (readAt field) >>= fun vs => (next vs).on field cs := by
  induction is generalizing next with
  | nil => rfl
  | cons i is ih =>
    rw [fields, on, List.mapM_cons, bind_assoc]
    refine bind_congr fun v => ?_
    rw [ih, bind_assoc]
    rfl

theorem mapM_readAt_range (l : List F) : (List.range l.length).mapM (readAt l) = .ok l := by
  refine Fold.mapM_eq_ok.mpr (List.forall₂_iff_get.mpr ⟨List.length_range, fun i hi hl => ?_⟩)
  rw [List.get_eq_getElem, List.get_eq_getElem, List.getElem_range]
  exact readAt_of_lt hl

end Reading

/-- The exporter on buffers that do not change. -/
def SpanExporter.contents (e : SpanExporter F A) : AnalyticsManager.Exporter F A := fun field coordinates path =>
  (e field.length coordinates.length path).on field coordinates

/-- The exporter that first reads everything. -/
def ofContents (exporter : AnalyticsManager.Exporter F A) : SpanExporter F A := fun n k path =>
  .coordinates (List.range k) fun coordinates => .fields (List.range n) fun field => .done (exporter field coordinates path)

theorem contents_ofContents (exporter : AnalyticsManager.Exporter F A) :
    (ofContents exporter).contents = exporter := by
  funext field coordinates path
  rw [SpanExporter.contents, ofContents, Reading.on_coordinates, Reading.mapM_readAt_range, Fold.ok_bind,
    Reading.on_fields, Reading.mapM_readAt_range, Fold.ok_bind, Reading.on]

/-! ## The steps -/

namespace AnalyticsManager

/-- A buffer of the stored collection, as it is. -/
def buffer (part : FieldCollection F → List F) (m : AnalyticsManager F) : List F := (m.fieldData.map part).getD []

/-- The size of `field_data_.value().get_field()`, or of `field_data_.value().get_coordinates()`. -/
def span (part : FieldCollection F → List F) : Code F ℕ := do
  let m ← Prog.get
  if m.fieldData.isNone then Prog.throw (.exception .badOptionalAccess)
  else do
    let m ← Prog.get
    return (m.buffer part).length

end AnalyticsManager

/-- An exporter that runs: an element is read when its turn comes. -/
def Reading.code : Reading F A → AnalyticsManager.Code F A
  | .done answer => Prog.ofExcept answer
  | .coordinate i next => Prog.get >>= fun m =>
    Prog.ofExcept (readAt (m.buffer FieldCollection.coordinates) i) >>= fun v => (next v).code
  | .field i next => Prog.get >>= fun m =>
    Prog.ofExcept (readAt (m.buffer FieldCollection.field) i) >>= fun v => (next v).code

namespace AnalyticsManager

/-- `export_to_vtk(std::string_view)`. -/
def exportPathCode (e : SpanExporter F A) (filePath : String) : Code F A := do
  let fieldSize ← span FieldCollection.field
  if fieldSize = 0 then Prog.throw (.unexpected "Field data is empty")
  else do
    let coordinatesSize ← span FieldCollection.coordinates
    if coordinatesSize = 0 then Prog.throw (.unexpected "Field data is empty")
    else do
      let fieldSize ← span FieldCollection.field
      let coordinatesSize ← span FieldCollection.coordinates
      (e fieldSize coordinatesSize filePath).code

/-! ## What they see -/

theorem observes_span (part : FieldCollection F → List F) : Prog.Observes fieldData (span part) := by
  refine Prog.observes_get_bind (fun m m' hv => by rw [hv]) fun m => ?_
  split_ifs
  · trivial
  · exact Prog.observes_get_bind (fun m m' hv => by rw [buffer, buffer, hv]) fun m => trivial

theorem observes_reading (r : Reading F A) : Prog.Observes fieldData r.code := by
  induction r with
  | done answer => exact Prog.observes_ofExcept answer
  | coordinate i next ih | field i next ih =>
    refine Prog.observes_get_bind (fun m m' hv => by rw [buffer, buffer, hv]) fun m => ?_
    exact Prog.observes_bind (Prog.observes_ofExcept _) ih

/-- **The call only reads the stored collection.** -/
theorem observes_exportPathCode (e : SpanExporter F A) (filePath : String) :
    Prog.Observes fieldData (exportPathCode e filePath) := by
  refine Prog.observes_bind (observes_span _) fun n => ?_
  split_ifs
  · trivial
  refine Prog.observes_bind (observes_span _) fun k => ?_
  split_ifs
  · trivial
  exact Prog.observes_bind (observes_span _) fun _ => Prog.observes_bind (observes_span _) fun _ =>
    observes_reading _

/-! ## When nothing else runs -/

variable {m : AnalyticsManager F} {fd : FieldCollection F}

theorem exec_span (hfd : m.fieldData = some fd) (part : FieldCollection F → List F) :
    Prog.exec (span part) m = some (.ok (part fd).length, m) := by
  rw [span, Prog.exec_bind_ok (Prog.exec_get _), if_neg (by simp [hfd]), Prog.exec_bind_ok (Prog.exec_get _), buffer,
    hfd]
  rfl

theorem answer_reading (hfd : m.fieldData = some fd) (r : Reading F A) :
    Prog.answer r.code m = some (r.on fd.field fd.coordinates) := by
  have hbuffer : ∀ part, m.buffer part = part fd := fun part => by rw [buffer, hfd]; rfl
  induction r with
  | done answer => cases answer <;> rfl
  | coordinate i next ih | field i next ih =>
    rw [Reading.code, Reading.on, Prog.answer, Prog.exec_bind_ok (Prog.exec_get _), hbuffer, Prog.exec_bind,
      Prog.exec_ofExcept]
    cases readAt _ i with
    | error e => rfl
    | ok v => exact ih v

/-- **What the call answers** when nothing else runs. -/
theorem answer_exportPathCode (e : SpanExporter F A) (m : AnalyticsManager F) (filePath : String) :
    Prog.answer (exportPathCode e filePath) m = some (match m.fieldData with
      | none => .error (.exception .badOptionalAccess)
      | some fd =>
        if fd.field.isEmpty ∨ fd.coordinates.isEmpty then .error (.unexpected "Field data is empty")
        else e.contents fd.field fd.coordinates filePath) := by
  rw [exportPathCode, Prog.answer]
  cases hfd : m.fieldData with
  | none =>
    have hspan : Prog.exec (span FieldCollection.field) m = some (.error (.exception .badOptionalAccess), m) := by
      rw [span, Prog.exec_bind_ok (Prog.exec_get _), if_pos (by simp [hfd])]
      rfl
    rw [Prog.exec_bind_error hspan]
    rfl
  | some fd =>
    simp only [List.isEmpty_iff_length_eq_zero]
    rw [Prog.exec_bind_ok (exec_span hfd _)]
    by_cases hfield : fd.field.length = 0
    · rw [if_pos hfield, if_pos (.inl hfield)]
      rfl
    rw [if_neg hfield, Prog.exec_bind_ok (exec_span hfd _)]
    by_cases hcoordinates : fd.coordinates.length = 0
    · rw [if_pos hcoordinates, if_pos (.inr hcoordinates)]
      rfl
    rw [if_neg hcoordinates, if_neg (not_or.mpr ⟨hfield, hcoordinates⟩), Prog.exec_bind_ok (exec_span hfd _),
      Prog.exec_bind_ok (exec_span hfd _)]
    exact answer_reading hfd _

/-- The answer of `export_to_vtk(std::string_view)` when no other thread runs. -/
def exportToVtkPath (exporter : Exporter F A) (m : AnalyticsManager F) (filePath : String) : Call A :=
  (Prog.answer (exportPathCode (ofContents exporter) filePath) m).getD (.error (.exception .nonTermination))

theorem exportToVtkPath_eq (exporter : Exporter F A) (m : AnalyticsManager F) (filePath : String) :
    m.exportToVtkPath exporter filePath = match m.fieldData with
      | none => .error (.exception .badOptionalAccess)
      | some fd =>
        if fd.field.isEmpty ∨ fd.coordinates.isEmpty then .error (.unexpected "Field data is empty")
        else exporter fd.field fd.coordinates filePath := by
  rw [exportToVtkPath, answer_exportPathCode, contents_ofContents]
  rfl

end AnalyticsManager

end TPC.Analytics
