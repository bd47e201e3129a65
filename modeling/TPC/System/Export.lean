import TPC.Analytics.Coherence
import TPC.Analytics.PathExport
import TPC.Lib.Runs
import TPC.System.FieldWorker

/-!
# Export while the worker calculates

`TPC::export_to_vtk` on any threads, while the field worker takes one request after another. An export takes
no lock: its reads and the steps of the worker come in any order.

* `calculation`: the calls in the `try` block of `field_worker_loop`;
* `State`, `Step`: the manager, the worker, and the last completely calculated field;
* `Guarantee`, `Inv`, **`Inv.step`**: a valid field is the last completely calculated one;
* `exportCode`, `Right`: the steps of an export, and what it should answer;
* **`exportsCompleteFields_iff`**: the states in which an export that runs alone is right;
* `Shared`, `Act.Step`, `Keeps`, **`exports_right`**: the runs in which every export is right.
-/

namespace TPC.System

open Arith Analytics AnalyticsManager Prog

variable {F : Type} [Arith F]

/-- The threshold that the worker passes, the value of the literal `5.2e-4F`. -/
def svdThreshold : F := 0.00052000000141561031341552734375

/-- The calls in the `try` block of `field_worker_loop`. -/
def calculation (svd : JacobiSVD F) (fuel : ℕ) (data : CalculationData F) : Code F Unit := do
  calculateSvdCoefficients svd data.measurements svdThreshold
  calculateField fuel data.grid data.radius data.length

namespace Export

/-- The field worker: waiting, or inside the `try` block, whose exits are caught. -/
inductive Worker (F : Type)
  | waiting
  | calculating (code : Prog (AnalyticsManager F) Exit Lock (Except Exit Unit))

/-- The manager and the worker, with the last completely calculated field. -/
structure State (F : Type) where
  manager : AnalyticsManager F
  worker : Worker F
  lastField : Option (FieldCollection F)

/-- A field is completely calculated when its validity flag is raised. -/
def lastFieldAfter (m m' : AnalyticsManager F) (lastField : Option (FieldCollection F)) :
    Option (FieldCollection F) :=
  if m'.fieldDataValid = true ∧ m.fieldDataValid = false then m'.fieldData else lastField

inductive Step (svd : JacobiSVD F) : State F → State F → Prop
  | start (σ : State F) (fuel : ℕ) (data : CalculationData F) (h : σ.worker = .waiting)
    (hne : data.measurements ≠ []) :
    Step svd σ { σ with worker := .calculating (attempt (calculation svd fuel data)) }
  | calculate (σ : State F) (code code' : Prog (AnalyticsManager F) Exit Lock (Except Exit Unit))
    (m' : AnalyticsManager F) (h : σ.worker = .calculating code)
    (hs : Prog.Step (code, σ.manager) (code', m')) :
    Step svd σ ⟨m', .calculating code', lastFieldAfter σ.manager m' σ.lastField⟩
  | finish (σ : State F) (r : Except Exit Unit) (h : σ.worker = .calculating (.ret r)) :
    Step svd σ { σ with worker := .waiting }

/-! ## The invariant -/

/-- What one write may do to the stored field: raise the flag over a present collection, or leave a
valid field alone. -/
def Guarantee (m m' : AnalyticsManager F) : Prop :=
  m'.fieldDataValid = true →
    (m.fieldDataValid = false → m'.fieldData.isSome = true) ∧
      (m.fieldDataValid = true → m'.fieldData = m.fieldData)

/-- **Every write of a calculation is within the guarantee.** -/
theorem wp_calculation (svd : JacobiSVD F) (fuel : ℕ) (data : CalculationData F)
    (m : AnalyticsManager F) :
    wp Guarantee (fun _ _ => True) (fun _ _ => True) (calculation svd fuel data) m := by
  have hfield : ∀ m : AnalyticsManager F, wp Guarantee (fun _ _ => True) (fun _ _ => True)
      (calculateField fuel data.grid data.radius data.length) m := by
    intro m
    by_cases ha : m.Accepts data.radius data.length
    · refine wp_calculateField (fun fd fd' => nofun) (fun _ _ _ => trivial) fuel _ _ _ ha nofun ?_
      exact fun fd₀ points bs _ => ⟨fun _ => ⟨fun _ => rfl, nofun⟩, trivial⟩
    · exact wp_calculateField_rejected fuel _ _ _ ha fun _ => trivial
  unfold calculation
  rw [wp_bind]
  refine wp_calculateSvdCoefficients (fun cs _ => ⟨fun hv => ⟨fun hi => ?_, fun _ => rfl⟩, ?_⟩)
    fun _ => trivial
  · rw [hi] at hv
    cases hv
  · exact hfield _

/-- What holds in every state: a valid field is the last completely calculated one, and the code
that is left keeps the guarantee. -/
structure Inv (σ : State F) : Prop where
  complete : σ.manager.fieldDataValid = true →
    ∃ fd, σ.manager.fieldData = some fd ∧ σ.lastField = some fd
  code : ∀ code, σ.worker = .calculating code →
    wp Guarantee (fun _ _ => True) (fun _ _ => True) code σ.manager

omit [Arith F] in
theorem Inv.of_guarantee {σ : State F} (h : Inv σ) {m' : AnalyticsManager F}
    (hm : m' = σ.manager ∨ Guarantee σ.manager m') (hv : m'.fieldDataValid = true) :
    ∃ fd, m'.fieldData = some fd ∧ lastFieldAfter σ.manager m' σ.lastField = some fd := by
  unfold lastFieldAfter
  cases hold : σ.manager.fieldDataValid with
  | true =>
    obtain ⟨fd, hfd, hlast⟩ := h.complete hold
    rw [if_neg (by simp)]
    rcases hm with rfl | hg
    · exact ⟨fd, hfd, hlast⟩
    · exact ⟨fd, ((hg hv).2 hold).trans hfd, hlast⟩
  | false =>
    rcases hm with rfl | hg
    · rw [hold] at hv
      cases hv
    · obtain ⟨fd, hfd⟩ := Option.isSome_iff_exists.mp ((hg hv).1 hold)
      rw [if_pos ⟨hv, rfl⟩]
      exact ⟨fd, hfd, hfd⟩

/-- **One step keeps the invariant.** -/
theorem Inv.step {svd : JacobiSVD F} {σ σ' : State F} (h : Inv σ) (hs : Step svd σ σ') :
    Inv σ' := by
  cases hs with
  | start fuel data hw hne =>
    refine ⟨h.complete, fun code he => ?_⟩
    cases he
    rw [wp_attempt]
    exact wp_calculation svd fuel data σ.manager
  | calculate code code' m' hw hstep =>
    obtain ⟨hm, hcode⟩ := wp_step hstep (h.code code hw)
    refine ⟨h.of_guarantee hm, fun code₁ he => ?_⟩
    cases he
    exact hcode
  | finish r hw => exact ⟨h.complete, nofun⟩

omit [Arith F] in
theorem inv_create {basis : BasisCollection F} {m₀ : AnalyticsManager F} (hb : create basis = .ok m₀) :
    Inv ⟨m₀, .waiting, none⟩ := by
  unfold create at hb
  split_ifs at hb
  cases hb
  exact ⟨nofun, nofun⟩

/-! ## The export -/

section Exporter

variable {A : Type} (exporter : Exporter F A)

/-- Errors are passed on under a heading. -/
def forward (result : Call A) : Call A :=
  match result with
  | .error (.unexpected error) => .error (.unexpected ("Exporting vtk file failed: " ++ error))
  | result => result

/-- `TPC::export_to_vtk`. -/
def exportCode (e : SpanExporter F A) (filePath : String) : Code F A :=
  if filePath.isEmpty then Prog.throw (.unexpected "File path is empty")
  else do
    let result ← Prog.attempt (exportPathCode e filePath)
    Prog.ofExcept (forward result)

omit [Arith F] in
theorem observes_exportCode (e : SpanExporter F A) (filePath : String) :
    Observes fieldData (exportCode e filePath) := by
  unfold exportCode
  split_ifs
  · trivial
  · exact observes_bind (observes_attempt (observes_exportPathCode e filePath)) fun r => observes_ofExcept _

/-- Its answer when no other thread runs. -/
def exportToVtk (m : AnalyticsManager F) (filePath : String) : Call A :=
  ((exportCode (ofContents exporter) filePath).answer m).getD (.error (.exception .nonTermination))

/-- The stored collection has an empty buffer. -/
abbrev EmptyBuffer (fd : FieldCollection F) : Prop := fd.field.isEmpty ∨ fd.coordinates.isEmpty

variable {exporter} {m : AnalyticsManager F} {fd : FieldCollection F} {path : String}

omit [Arith F] in
theorem answer_exportCode (e : SpanExporter F A) (m : AnalyticsManager F) (path : String) :
    answer (exportCode e path) m = some (if path.isEmpty then .error (.unexpected "File path is empty")
      else forward (m.exportToVtkPath e.contents path)) := by
  unfold exportCode
  split_ifs
  · rfl
  · have hpath := answer_exportPathCode e m path
    rw [← exportToVtkPath_eq] at hpath
    have hexec := (observes_exportPathCode e path).exec_eq m
    rw [hpath] at hexec
    rw [answer, exec_bind, exec_attempt, hexec]
    show Option.map Prod.fst (exec (Prog.ofExcept (forward (m.exportToVtkPath e.contents path))) m) = _
    cases forward (m.exportToVtkPath e.contents path) <;> rfl

omit [Arith F] in
theorem exportToVtk_eq : exportToVtk exporter m path = if path.isEmpty then .error (.unexpected "File path is empty")
    else forward (m.exportToVtkPath exporter path) := by
  rw [exportToVtk, answer_exportCode, contents_ofContents]
  rfl

omit [Arith F] in
theorem exportToVtk_of_none (hp : path ≠ "") (hfd : m.fieldData = none) :
    exportToVtk exporter m path = .error (.exception .badOptionalAccess) := by
  rw [exportToVtk_eq, if_neg (by simpa using hp), exportToVtkPath_eq, hfd]
  rfl

omit [Arith F] in
theorem exportToVtk_of_empty (hp : path ≠ "") (hfd : m.fieldData = some fd) (he : EmptyBuffer fd) :
    exportToVtk exporter m path =
      .error (.unexpected "Exporting vtk file failed: Field data is empty") := by
  rw [exportToVtk_eq, if_neg (by simpa using hp), exportToVtkPath_eq, hfd]
  dsimp only
  rw [if_pos he]
  rfl

omit [Arith F] in
theorem exportToVtk_of_not_empty (hp : path ≠ "") (hfd : m.fieldData = some fd)
    (he : ¬ EmptyBuffer fd) : exportToVtk exporter m path =
      forward (exporter fd.field fd.coordinates path) := by
  rw [exportToVtk_eq, if_neg (by simpa using hp), exportToVtkPath_eq, hfd]
  dsimp only
  rw [if_neg he]

end Exporter

/-- What an export that begins in the state `σ` should answer: without an exception it is refused while no field
is readable, and whenever the argument-less export refuses. Otherwise the exporter receives the last completely
calculated field, and its answer is passed on. -/
structure Right {A : Type} (σ : State F) (e : SpanExporter F A) (path : String) (r : Call A) : Prop where
  unreadable : (∀ fd, σ.manager.getFieldData ≠ .ok fd) → ∃ error, r = .error (.unexpected error)
  refuses : σ.manager.exportToVtk (fun _ _ _ => .ok ()) ≠ .ok () → ∃ error, r = .error (.unexpected error)
  exports : σ.manager.exportToVtk (fun _ _ _ => .ok ()) = .ok () → path ≠ "" →
    ∃ fd, σ.manager.getFieldData = .ok fd ∧ σ.lastField = some fd ∧
      r = forward (e.contents fd.field fd.coordinates path)

/-- The field is valid, or there is nothing in the buffers to export. -/
def Exportable (m : AnalyticsManager F) : Prop :=
  m.fieldDataValid = true ∨ ∃ fd, m.fieldData = some fd ∧ EmptyBuffer fd

omit [Arith F] in
theorem exportToVtk_accepts_iff {m : AnalyticsManager F} : m.exportToVtk (fun _ _ _ => .ok ()) = .ok () ↔
    ∃ fd, m.getFieldData = .ok fd ∧ ¬ EmptyBuffer fd := by
  unfold AnalyticsManager.exportToVtk getFieldData
  cases m.fieldDataValid with
  | false => simp
  | true =>
    cases m.fieldData with
    | none => simp
    | some fd =>
      by_cases he : EmptyBuffer fd <;> simp

omit [Arith F] in
/-- **An export from an exportable state** is right if it runs alone. -/
theorem right_of_exportable {A : Type} {σ : State F} (h : Inv σ) (hx : Exportable σ.manager) (e : SpanExporter F A)
    (path : String) : ∃ r, answer (exportCode e path) σ.manager = some r ∧ Right σ e path r := by
  refine ⟨_, answer_exportCode e σ.manager path, ?_⟩
  by_cases hp : path = ""
  · subst hp
    exact ⟨fun _ => ⟨_, rfl⟩, fun _ => ⟨_, rfl⟩, fun _ hp => absurd rfl hp⟩
  rw [← exportToVtk_eq]
  -- with an empty buffer it is refused, and so is the argument-less one
  have hempty : ∀ fd, σ.manager.fieldData = some fd → EmptyBuffer fd →
      Right σ e path (exportToVtk e.contents σ.manager path) := by
    intro fd hfd he
    rw [exportToVtk_of_empty hp hfd he]
    refine ⟨fun _ => ⟨_, rfl⟩, fun _ => ⟨_, rfl⟩, fun ha => ?_⟩
    obtain ⟨fd', hread, hne⟩ := exportToVtk_accepts_iff.mp ha
    cases hfd.symm.trans (getFieldData_eq_ok.mp hread).2
    exact absurd he hne
  rcases hx with hv | ⟨fd, hfd, he⟩
  · obtain ⟨fd, hfd, hlast⟩ := h.complete hv
    have hread : σ.manager.getFieldData = .ok fd := getFieldData_eq_ok.mpr ⟨hv, hfd⟩
    by_cases he : EmptyBuffer fd
    · exact hempty fd hfd he
    · rw [exportToVtk_of_not_empty hp hfd he]
      exact ⟨fun hn => absurd hread (hn fd), fun hr => absurd (exportToVtk_accepts_iff.mpr ⟨fd, hread, he⟩) hr,
        fun _ _ => ⟨fd, hread, hlast, rfl⟩⟩
  · exact hempty fd hfd he

/-- Every export that runs alone from here ends, and is right. -/
def ExportsCompleteFields (σ : State F) : Prop :=
  ∀ (A : Type) (e : SpanExporter F A) (path : String),
    ∃ r, answer (exportCode e path) σ.manager = some r ∧ Right σ e path r

omit [Arith F] in
/-- **When an export that runs alone is right**: exactly when the stored field is valid or a buffer is empty.
Before the first calculation it throws; while a calculation rewrites the buffers, and after one was cut short, it
hands over what is there. -/
theorem exportsCompleteFields_iff {σ : State F} (h : Inv σ) : ExportsCompleteFields σ ↔ Exportable σ.manager := by
  refine ⟨fun hx => ?_, fun hx A e path => right_of_exportable h hx e path⟩
  by_cases hv : σ.manager.fieldDataValid = true
  · exact .inl hv
  have hread : ∀ fd, σ.manager.getFieldData ≠ .ok fd := fun fd hfd => hv (getFieldData_eq_ok.mp hfd).1
  obtain ⟨r, hr, hright⟩ := hx Unit (ofContents fun _ _ _ => .ok ()) "output"
  obtain ⟨error, rfl⟩ := hright.unreadable hread
  rw [answer_exportCode, ← exportToVtk_eq, contents_ofContents] at hr
  cases hfd : σ.manager.fieldData with
  | none =>
    rw [exportToVtk_of_none (by decide) hfd] at hr
    cases hr
  | some fd =>
    by_contra hne
    have hempty : ¬ EmptyBuffer fd := fun he => hne (.inr ⟨fd, hfd, he⟩)
    rw [exportToVtk_of_not_empty (by decide) hfd hempty] at hr
    cases hr

/-! ## Exports in progress -/

/-- An export: its arguments, and the system when it began. -/
structure Begun (F A : Type) where
  exporter : SpanExporter F A
  path : String
  system : State F

/-- The system, the exports in progress, each with the code that is left of it, and the answers, in order. -/
structure Shared (F ι A : Type) where
  system : State F
  exports : ι → Option (Begun F A × Code F A)
  answers : List (Begun F A × Call A)

/-- A step of the worker to this state, or a step of the thread `i` that exports. -/
inductive Act (F ι A : Type)
  | worker (σ : State F)
  | begins (i : ι) (e : SpanExporter F A) (path : String)
  | moves (i : ι)
  | returns (i : ι)

section Exports

variable {ι A : Type} [DecidableEq ι]

/-- The export of thread `i`, or none. -/
@[simps]
def Shared.setExport (s : Shared F ι A) (i : ι) (x : Option (Begun F A × Code F A)) : Shared F ι A :=
  { s with exports := Function.update s.exports i x }

omit [Arith F] in
theorem exports_setExport {s : Shared F ι A} {i j : ι} {x : Option (Begun F A × Code F A)}
    {p : Begun F A × Code F A} (h : (s.setExport i x).exports j = some p) : x = some p ∨ s.exports j = some p := by
  by_cases hji : j = i
  · subst hji
    exact .inl (by simpa using h)
  · exact .inr (by simpa [Function.update_of_ne hji] using h)

/-- One step of one thread. -/
inductive Act.Step (svd : JacobiSVD F) (s : Shared F ι A) : Act F ι A → Shared F ι A → Prop
  | worker (σ : State F) (hs : Export.Step svd s.system σ) : Act.Step svd s (.worker σ) { s with system := σ }
  | begins (i : ι) (e : SpanExporter F A) (path : String) (h : s.exports i = none) :
    Act.Step svd s (.begins i e path) (s.setExport i (some (⟨e, path, s.system⟩, exportCode e path)))
  | moves (i : ι) (b : Begun F A) (code code' : Code F A) (m' : AnalyticsManager F)
    (h : s.exports i = some (b, code)) (hs : Prog.Step (code, s.system.manager) (code', m')) :
    Act.Step svd s (.moves i) { s.setExport i (some (b, code')) with system := { s.system with manager := m' } }
  | returns (i : ι) (b : Begun F A) (r : Call A) (h : s.exports i = some (b, ended r)) :
    Act.Step svd s (.returns i) { s.setExport i none with answers := s.answers ++ [(b, r)] }

omit [Arith F] [DecidableEq ι] in
/-- A new system. -/
def Shared.init (m₀ : AnalyticsManager F) : Shared F ι A := ⟨⟨m₀, .waiting, none⟩, fun _ => none, []⟩

/-- Exports begin in exportable states, and the stored collection stays as it is while one has something left to
do. -/
def Keeps (s : Shared F ι A) : Act F ι A → Prop
  | .worker σ => (∃ i b code, s.exports i = some (b, code) ∧ ∀ r, code ≠ ended r) →
    σ.manager.fieldData = s.system.manager.fieldData
  | .begins _ _ _ => Exportable s.system.manager
  | .moves _ | .returns _ => True

/-- What every run keeps. -/
structure Going (s : Shared F ι A) : Prop where
  inv : Inv s.system
  observes : ∀ i b code, s.exports i = some (b, code) → Observes fieldData code
  ends : ∀ i b code, s.exports i = some (b, code) →
    ∃ r, answer code s.system.manager = some r ∧ Right b.system b.exporter b.path r
  answers : ∀ p ∈ s.answers, Right p.1.system p.1.exporter p.1.path p.2

omit [Arith F] [DecidableEq ι] in
theorem going_init {basis : BasisCollection F} {m₀ : AnalyticsManager F} (hb : create basis = .ok m₀) :
    Going (.init m₀ : Shared F ι A) where
  inv := inv_create hb
  observes _ _ _ hi := absurd hi.symm (Option.some_ne_none _)
  ends _ _ _ hi := absurd hi.symm (Option.some_ne_none _)
  answers _ hp := absurd hp List.not_mem_nil

theorem Going.step {svd : JacobiSVD F} {s s' : Shared F ι A} {a : Act F ι A} (h : Going s) (hk : Keeps s a)
    (hs : Act.Step svd s a s') : Going s' := by
  cases hs with
  | worker σ hs =>
    refine ⟨h.inv.step hs, h.observes, fun i b code hi => ?_, h.answers⟩
    obtain ⟨r, hr, hright⟩ := h.ends i b code hi
    refine ⟨r, ?_, hright⟩
    by_cases hended : ∃ r, code = ended r
    · obtain ⟨r', rfl⟩ := hended
      rw [answer_ended] at hr ⊢
      exact hr
    · rw [← hr]
      exact (h.observes i b code hi).congr (hk ⟨i, b, code, hi, not_exists.mp hended⟩)
  | begins i e path hi =>
    refine ⟨h.inv, fun j b code hj => ?_, fun j b code hj => ?_, h.answers⟩
    · rcases exports_setExport hj with hx | hold
      · cases hx
        exact observes_exportCode e path
      · exact h.observes j b code hold
    · rcases exports_setExport hj with hx | hold
      · cases hx
        exact right_of_exportable h.inv hk e path
      · exact h.ends j b code hold
  | moves i b code code' m' hi hs =>
    obtain ⟨rfl, hobserves, hanswer⟩ := (h.observes i b code hi).step hs
    refine ⟨h.inv, fun j b' code₁ hj => ?_, fun j b' code₁ hj => ?_, h.answers⟩
    · rcases exports_setExport (s := s) hj with hx | hold
      · cases hx
        exact hobserves
      · exact h.observes j b' code₁ hold
    · rcases exports_setExport (s := s) hj with hx | hold
      · cases hx
        obtain ⟨r, hr, hright⟩ := h.ends i b code hi
        exact ⟨r, hanswer.trans hr, hright⟩
      · exact h.ends j b' code₁ hold
  | returns i b r hi =>
    obtain ⟨r', hr, hright⟩ := h.ends i b _ hi
    rw [answer_ended] at hr
    cases hr
    have hold : ∀ {j p}, (s.setExport i none).exports j = some p → s.exports j = some p := fun hj =>
      (exports_setExport hj).resolve_left nofun
    refine ⟨h.inv, fun j b' code hj => h.observes j b' code (hold hj),
      fun j b' code hj => h.ends j b' code (hold hj), fun p hp => ?_⟩
    rcases List.mem_append.mp hp with hp | hp
    · exact h.answers p hp
    · rw [List.mem_singleton.mp hp]
      exact hright

/-- **Exports of complete fields.** In a run whose exports begin in exportable states, while the stored collection
stays as it is until they have read it, every answer is right, and an export in progress that goes on alone ends and
is right; and exactly from the exportable states every export that runs alone is. -/
theorem exports_right {svd : JacobiSVD F} {basis : BasisCollection F} {m₀ : AnalyticsManager F}
    (hb : create basis = .ok m₀) {s : Shared F ι A} (h : Runs.Reach (Act.Step svd) Keeps (.init m₀) s) :
    (∀ p ∈ s.answers, Right p.1.system p.1.exporter p.1.path p.2) ∧
    (∀ i b code, s.exports i = some (b, code) →
      ∃ r, answer code s.system.manager = some r ∧ Right b.system b.exporter b.path r) ∧
    (ExportsCompleteFields s.system ↔ Exportable s.system.manager) := by
  have hgoing : Going s := h.invariant (going_init hb) fun _ _ _ _ hi hk hs => hi.step hk hs
  exact ⟨hgoing.answers, hgoing.ends, exportsCompleteFields_iff hgoing.inv⟩

end Exports

/-! ## An export that is answered -/

section Answered

variable {ι A : Type} [DecidableEq ι] {svd : JacobiSVD F} {m₀ : AnalyticsManager F}
  {ok : Shared F ι A → Act F ι A → Prop}

theorem reach_answered (hok : ∀ s i, ok s (.moves i) ∧ ok s (.returns i)) {s : Shared F ι A} {i : ι} {b : Begun F A}
    {code : Code F A} {r : Call A} (h : Runs.Reach (Act.Step svd) ok (.init m₀) (s.setExport i (some (b, code))))
    (hobserves : Observes fieldData code) (hr : answer code s.system.manager = some r) :
    Runs.Reach (Act.Step svd) ok (.init m₀) { s.setExport i none with answers := s.answers ++ [(b, r)] } := by
  have hexec := hobserves.exec_eq s.system.manager
  rw [hr] at hexec
  have hreaches : Prog.Reaches code s.system.manager (ended r) s.system.manager := exec_reaches code hexec
  suffices ∀ c, Relation.ReflTransGen Prog.Step (code, s.system.manager) c → c.2 = s.system.manager ∧
      Observes fieldData c.1 ∧
        Runs.Reach (Act.Step svd) ok (.init m₀) (s.setExport i (some (b, c.1))) by
    obtain ⟨-, -, hend⟩ := this _ hreaches
    have hlast := hend.step (.returns i b r (by simp)) (hok _ i).2
    simpa [Shared.setExport] using hlast
  intro c hc
  induction hc with
  | refl => exact ⟨rfl, hobserves, h⟩
  | @tail c c' _ hs ih =>
    obtain ⟨hm, ho, hreach⟩ := ih
    obtain ⟨code₁, m₁⟩ := c
    obtain ⟨code₂, m₂⟩ := c'
    obtain rfl : m₁ = s.system.manager := hm
    obtain ⟨rfl, ho', -⟩ := ho.step hs
    have hnext := hreach.step (.moves i b code₁ code₂ _ (by simp) hs) (hok _ i).1
    exact ⟨rfl, ho', by simpa [Shared.setExport] using hnext⟩

end Answered

/-- Before any calculation an export throws. -/
theorem not_forall_exports_right : ¬ ∀ (svd : JacobiSVD ℝ) (basis : BasisCollection ℝ) (m₀ : AnalyticsManager ℝ)
    (s : Shared ℝ Unit Unit), create basis = .ok m₀ → Runs.Reachable (Act.Step svd) (.init m₀) s →
      ∀ p ∈ s.answers, Right p.1.system p.1.exporter p.1.path p.2 := by
  intro h
  let m₀ : AnalyticsManager ℝ := ⟨oneBasis, none, false, []⟩
  let e : SpanExporter ℝ Unit := ofContents fun _ _ _ => .ok ()
  have hanswer : answer (exportCode e "output.vtk") m₀ = some (.error (.exception .badOptionalAccess)) := by
    rw [answer_exportCode, ← exportToVtk_eq, exportToVtk_of_none (by decide) rfl]
  have hreach : Runs.Reach (Act.Step columnSVD) (fun _ _ => True) (.init m₀) _ := reach_answered
    (s := .init m₀) (i := ()) (fun _ _ => ⟨trivial, trivial⟩) (.step .init (.begins () e "output.vtk" rfl) trivial)
    (observes_exportCode e "output.vtk") hanswer
  obtain ⟨error, he⟩ := (h _ _ _ _ create_oneBasis hreach _ (List.mem_singleton_self _)).unreadable nofun
  cases he

/-- A sensor, and the coarsest grid of the unit cylinder. -/
def firstData : CalculationData ℝ := ⟨fun _ => 2, [sensor 1], 1, 1⟩

theorem ends_firstData : Ends columnSVD (⟨oneBasis, none, false, []⟩ : AnalyticsManager ℝ)
    (.calculateSvdCoefficients firstData.measurements svdThreshold) (.ok ()) (fitted none false 1) := by
  refine ends_calculateSvdCoefficients (by simp [firstData]) (by simp [oneBasis]) ?_
  have hthreshold : ¬ (svdThreshold : ℝ) < 0 := by norm_num [svdThreshold]
  have hdesign : SVDSolver.design [sensor 1] oneBasis.basis oneBasis.modes svdThreshold =
      SVDSolver.design [sensor 1] oneBasis.basis oneBasis.modes 0 := by
    simp only [SVDSolver.design, if_neg hthreshold, lt_irrefl, if_false]
  have hsolve := solveSvd_sensor 1
  unfold SVDSolver.solveSvd at hsolve ⊢
  rw [← hdesign] at hsolve
  exact hsolve

theorem exists_calculated : ∃ m', Prog.Reaches (calculation columnSVD 10 firstData) ⟨oneBasis, none, false, []⟩
    (.ret ()) m' ∧ m'.fieldDataValid = true := by
  obtain ⟨m', hends⟩ := exists_ends_constant
  have hfit : Prog.Reaches (calculateSvdCoefficients columnSVD firstData.measurements svdThreshold)
    ⟨oneBasis, none, false, []⟩ (.ret ()) (fitted none false 1) := ends_firstData
  have hfield : Prog.Reaches (calculateField 10 firstData.grid firstData.radius firstData.length) (fitted none false 1)
    (.ret ()) m' := hends
  refine ⟨m', (hfit.bind fun _ => calculateField 10 firstData.grid firstData.radius firstData.length).trans hfield, ?_⟩
  cases calculateField_spec hends with
  | completed => rfl

theorem reach_worker {ι A : Type} [DecidableEq ι] {svd : JacobiSVD F} {m₀ m m' : AnalyticsManager F}
    {code code' : Prog (AnalyticsManager F) Exit Lock (Except Exit Unit)} {last : Option (FieldCollection F)}
    (hrun : Prog.Reaches code m code' m') (h : Runs.Reach (Act.Step (ι := ι) (A := A) svd) Keeps (.init m₀)
      ⟨⟨m, .calculating code, last⟩, fun _ => none, []⟩) :
    ∃ last', Runs.Reach (Act.Step (ι := ι) (A := A) svd) Keeps (.init m₀)
      ⟨⟨m', .calculating code', last'⟩, fun _ => none, []⟩ := by
  suffices ∀ c, Relation.ReflTransGen Prog.Step (code, m) c → ∃ last',
      Runs.Reach (Act.Step (ι := ι) (A := A) svd) Keeps (.init m₀)
        ⟨⟨c.2, .calculating c.1, last'⟩, fun _ => none, []⟩ from this _ hrun
  intro c hc
  induction hc with
  | refl => exact ⟨last, h⟩
  | @tail c c' _ hs ih =>
    obtain ⟨last', hreach⟩ := ih
    refine ⟨_, hreach.step (.worker _ (.calculate _ c.1 c'.1 c'.2 rfl hs)) ?_⟩
    rintro ⟨i, b, code, hi, -⟩
    cases hi

/-- `exports_right` after a calculation: one export has been answered, and the next one has begun. -/
theorem exports_right_calculated : ∃ s : Shared ℝ Unit Unit, s.system.manager.fieldDataValid = true ∧
    s.answers ≠ [] ∧ s.exports () ≠ none ∧
      (∀ p ∈ s.answers, Right p.1.system p.1.exporter p.1.path p.2) ∧
      (∀ i b code, s.exports i = some (b, code) →
        ∃ r, answer code s.system.manager = some r ∧ Right b.system b.exporter b.path r) ∧
      (ExportsCompleteFields s.system ↔ Exportable s.system.manager) := by
  let e : SpanExporter ℝ Unit := ofContents fun _ _ _ => .ok ()
  obtain ⟨m', hrun, hvalid⟩ := exists_calculated
  have hidle : ∀ (s : Shared ℝ Unit Unit) σ, s.exports = (fun _ => none) → Keeps s (.worker σ) := by
    rintro s σ hs ⟨i, b, code, hi, -⟩
    rw [hs] at hi
    cases hi
  have h₀ : Runs.Reach (Act.Step (ι := Unit) (A := Unit) columnSVD) Keeps (.init ⟨oneBasis, none, false, []⟩) _ := .init
  have h₁ := h₀.step (.worker _ (.start _ 10 firstData rfl (List.cons_ne_nil _ _))) (hidle _ _ rfl)
  obtain ⟨last, h₂⟩ := reach_worker hrun.attempt h₁
  have h₃ := h₂.step (.worker _ (.finish _ (.ok ()) rfl)) (hidle _ _ rfl)
  have h₄ := h₃.step (.begins () e "field.vtk" rfl) (.inl hvalid)
  have h₅ := reach_answered (fun _ _ => ⟨trivial, trivial⟩) h₄ (observes_exportCode e "field.vtk")
    (answer_exportCode e m' "field.vtk")
  have h₆ := h₅.step (.begins () e "field.vtk" rfl) (.inl hvalid)
  exact ⟨_, hvalid, List.cons_ne_nil _ _, by simp, exports_right create_oneBasis h₆⟩

end Export

end TPC.System
