import TPC.System.Pipeline

/-!
# The requests and the analytics manager

The field worker with the analytics manager that it calculates on. A call of the manager is one step:
only the worker writes it, and the readers wait for its mutexes.

* `State`, **`Step`**: the worker and its manager, `Step.refines`;
* `Served`, `ServedAll`: what the attempts at requests do to a manager, one after another;
* `Inv`, `Inv.step`: the manager is the one that the attempts leave;
* **`requests_served`**: in any interleaving the requests are served as one thread would serve them;
* `LeftBy`, `leftBy_after_event`, **`export_after_event`**: after an event with `true`, the coefficients and
  the file are those of its request.
-/

namespace TPC.System.Requests

open Analytics AnalyticsManager FieldWorker

variable {F : Type} [Arith F]

/-- The field worker, and the manager. -/
structure State (F : Type) where
  worker : FieldWorker.State F
  manager : AnalyticsManager F

/-- How the `try` block sees the end of a call. -/
inductive Sees : Call Unit → Outcome → Prop
  | success : Sees (.ok ()) .success
  | error (text : String) : Sees (.error (.unexpected text)) (.error text)
  | exception (fault : Fault) (what : Option String) : Sees (.error (.exception fault)) (.exception what)

/-- Inside one of the two calls. -/
def calculating : Phase F → Bool
  | .calculatingSvd _ | .calculatingField _ => true
  | _ => false

/-- One step of one thread. -/
inductive Step (svd : JacobiSVD F) (s : State F) : State F → Prop
  /-- Any step of the protocol but the end of a calculation. -/
  | protocol (σ : FieldWorker.State F) (hs : FieldWorker.Step s.worker σ)
    (hp : calculating s.worker.phase = true → σ.phase = s.worker.phase) : Step svd s { s with worker := σ }
  | svdEnds (r : Request F) (o : Outcome) (res : Call Unit) (m : AnalyticsManager F)
    (hp : s.worker.phase = .calculatingSvd r)
    (he : Ends svd s.manager (.calculateSvdCoefficients r.data.measurements svdThreshold) res m)
    (ho : Sees res o) : Step svd s ⟨(s.worker.noteFit r o).svdEnds r o, m⟩
  | fieldEnds (r : Request F) (o : Outcome) (res : Call Unit) (m : AnalyticsManager F) (fuel : ℕ)
    (hp : s.worker.phase = .calculatingField r)
    (he : Ends svd s.manager (.calculateField fuel r.data.grid r.data.radius r.data.length) res m)
    (ho : Sees res o) : Step svd s ⟨(s.worker.noteField r o).fieldEnds r o, m⟩

/-- The states that runs from `s` reach. -/
abbrev Reaches (svd : JacobiSVD F) : State F → State F → Prop := Relation.ReflTransGen (Step svd)

/-- What an attempt at a request does to a manager. -/
inductive Served (svd : JacobiSVD F) (m : AnalyticsManager F) : Attempt F → AnalyticsManager F → Prop
  /-- The coefficients could not be calculated. -/
  | unfit (r : Request F) (o : Outcome) (res : Call Unit) (m' : AnalyticsManager F)
    (h : Ends svd m (.calculateSvdCoefficients r.data.measurements svdThreshold) res m') (ho : Sees res o)
    (hne : o ≠ .success) : Served svd m ⟨r, o, none⟩ m'
  | fitted (r : Request F) (o : Outcome) (res : Call Unit) (fuel : ℕ) (m₁ m' : AnalyticsManager F)
    (h₁ : Ends svd m (.calculateSvdCoefficients r.data.measurements svdThreshold) (.ok ()) m₁)
    (h₂ : Ends svd m₁ (.calculateField fuel r.data.grid r.data.radius r.data.length) res m') (ho : Sees res o) :
    Served svd m ⟨r, .success, some o⟩ m'

/-- One attempt after another. -/
inductive ServedAll (svd : JacobiSVD F) (m₀ : AnalyticsManager F) : List (Attempt F) → AnalyticsManager F → Prop
  | nil : ServedAll svd m₀ [] m₀
  | concat {as : List (Attempt F)} {a : Attempt F} {m m' : AnalyticsManager F} (h : ServedAll svd m₀ as m)
    (ha : Served svd m a m') : ServedAll svd m₀ (as ++ [a]) m'

variable {svd : JacobiSVD F} {m₀ m m' : AnalyticsManager F} {s s' : State F} {σ : FieldWorker.State F}
  {r : Request F} {o : Outcome} {res : Call Unit}

/-- **Every step is one of the field worker.** -/
theorem Step.refines (h : Step svd s s') : FieldWorker.Step s.worker s'.worker := by
  cases h with
  | protocol σ hs hp => exact hs
  | svdEnds r o res m hp he ho => exact .svdEnds _ r o hp
  | fieldEnds r o res m fuel hp he ho => exact .fieldEnds _ r o hp

theorem worker_reachable (h : Reaches svd ⟨.init, m₀⟩ s) : FieldWorker.Reachable s.worker := by
  induction h with
  | refl => exact .refl
  | tail _ hs ih => exact ih.tail hs.refines

omit [Arith F] in
theorem protocol_spec {σ' : FieldWorker.State F} (h : FieldWorker.Step σ σ')
    (hp : calculating σ.phase = true → σ'.phase = σ.phase) : σ'.attempts = σ.attempts ∧
      ∀ r, σ'.phase = .calculatingField r ↔ σ.phase = .calculatingField r := by
  cases h with
  | call t data hu =>
    unfold FieldWorker.State.call
    split_ifs <;> exact ⟨rfl, fun r => .rfl⟩
  | submit l₁ l₂ c hc hs =>
    rcases FieldWorker.State.submits_cases σ l₁ c l₂ with ⟨-, he⟩ | ⟨-, he⟩ <;> rw [he]
    · exact ⟨rfl, fun r => .rfl⟩
    · refine ⟨rfl, fun r => ?_⟩
      show σ.phase.start = _ ↔ _
      cases σ.phase <;> simp [Phase.start]
  | notifyOne l₁ l₂ c hc hs =>
    refine ⟨rfl, fun r => ?_⟩
    show σ.phase.notified = _ ↔ _
    cases σ.phase <;> simp [Phase.notified]
  | warn | warned => exact ⟨rfl, fun r => .rfl⟩
  | wait h =>
    unfold FieldWorker.State.wait
    split <;> exact ⟨rfl, fun r => by simp [h]⟩
  | svdEnds r o h =>
    have hphase := hp (by rw [h]; rfl)
    unfold FieldWorker.State.svdEnds at hphase
    split_ifs at hphase <;> simp [h] at hphase
  | fieldEnds r o h =>
    have hphase := hp (by rw [h]; rfl)
    simp [FieldWorker.State.fieldEnds, h] at hphase
  | clearFlag r b e h =>
    refine ⟨rfl, fun r => ?_⟩
    cases b <;> simp [FieldWorker.State.clearFlag, h]
  | wake h | report r e h | reportFailed r e h | reported r h hw | fire r b h | handled h hw =>
    exact ⟨rfl, fun r => by simp [h, FieldWorker.State.report, FieldWorker.State.fire]⟩

/-- The manager is the one that the attempts leave, and the coefficients of the next one when those have been
calculated. -/
structure Inv (svd : JacobiSVD F) (m₀ : AnalyticsManager F) (s : State F) : Prop where
  served : (∀ r, s.worker.phase ≠ .calculatingField r) → ServedAll svd m₀ s.worker.attempts s.manager
  fitted : ∀ r, s.worker.phase = .calculatingField r → ∃ m, ServedAll svd m₀ s.worker.attempts m ∧
    Ends svd m (.calculateSvdCoefficients r.data.measurements svdThreshold) (.ok ()) s.manager

theorem inv_init (svd : JacobiSVD F) (m₀ : AnalyticsManager F) : Inv svd m₀ ⟨.init, m₀⟩ :=
  ⟨fun _ => .nil, nofun⟩

theorem Inv.unrelated (h : Inv svd m₀ s) (hs : FieldWorker.Step s.worker σ)
    (hp : calculating s.worker.phase = true → σ.phase = s.worker.phase) :
    Inv svd m₀ { s with worker := σ } := by
  obtain ⟨hattempts, hphase⟩ := protocol_spec hs hp
  refine ⟨fun hne => ?_, fun r hr => ?_⟩
  · show ServedAll svd m₀ σ.attempts s.manager
    rw [hattempts]
    exact h.served fun r hr => hne r ((hphase r).mpr hr)
  · show ∃ m, ServedAll svd m₀ σ.attempts m ∧ _
    rw [hattempts]
    exact h.fitted r ((hphase r).mp hr)

omit [Arith F] in
theorem sees_success (h : Sees res .success) : res = .ok () := by
  cases h
  rfl

theorem Inv.svdEnds (h : Inv svd m₀ s) (hp : s.worker.phase = .calculatingSvd r)
    (he : Ends svd s.manager (.calculateSvdCoefficients r.data.measurements svdThreshold) res m)
    (ho : Sees res o) : Inv svd m₀ ⟨(s.worker.noteFit r o).svdEnds r o, m⟩ := by
  have hserved := h.served fun r' hr' => by simp [hp] at hr'
  by_cases hsuccess : o = .success
  · subst hsuccess
    obtain rfl := sees_success ho
    refine ⟨fun hne => absurd rfl (hne r), fun r' hr' => ?_⟩
    cases hr'
    exact ⟨s.manager, hserved, he⟩
  · rw [FieldWorker.State.svdEnds, if_neg hsuccess, FieldWorker.State.noteFit, if_neg hsuccess]
    exact ⟨fun _ => .concat hserved (.unfit r o res m he ho hsuccess), nofun⟩

theorem Inv.fieldEnds (h : Inv svd m₀ s) {fuel : ℕ} (hp : s.worker.phase = .calculatingField r)
    (he : Ends svd s.manager (.calculateField fuel r.data.grid r.data.radius r.data.length) res m)
    (ho : Sees res o) : Inv svd m₀ ⟨(s.worker.noteField r o).fieldEnds r o, m⟩ := by
  obtain ⟨m₁, hserved, hfit⟩ := h.fitted r hp
  exact ⟨fun _ => .concat hserved (.fitted r o res fuel s.manager m hfit he ho), nofun⟩

theorem Inv.step (h : Inv svd m₀ s) (hs : Step svd s s') : Inv svd m₀ s' := by
  cases hs with
  | protocol σ hs hp => exact h.unrelated hs hp
  | svdEnds r o res m hp he ho => exact h.svdEnds hp he ho
  | fieldEnds r o res m fuel hp he ho => exact h.fieldEnds hp he ho

theorem inv_reaches (h : Reaches svd ⟨.init, m₀⟩ s) : Inv svd m₀ s := by
  induction h with
  | refl => exact inv_init svd m₀
  | tail _ hs ih => exact ih.step hs

/-! ## One after another -/

/-- What the users of `calculate_field_async` rely on: the attempts are at the accepted requests, in their
order; the manager is the one that they leave, one after another, as on one thread; and the events tell
how they ended. -/
structure Serial (svd : JacobiSVD F) (m₀ : AnalyticsManager F) (s : State F) : Prop where
  order : s.worker.attempts.map Attempt.request <+: s.worker.accepted
  events : s.worker.fired <+: s.worker.attempts.map fun a => (a.request, a.succeeded)
  manager : (∀ r, s.worker.phase ≠ .calculatingField r) → ServedAll svd m₀ s.worker.attempts s.manager
  /-- While a field is calculated, the coefficients are those of its request. -/
  fitted : ∀ r, s.worker.phase = .calculatingField r → ∃ m, ServedAll svd m₀ s.worker.attempts m ∧
    Ends svd m (.calculateSvdCoefficients r.data.measurements svdThreshold) (.ok ()) s.manager
  /-- When every accepted request has had its event, all of them have been served. -/
  settled : s.worker.fired.length = s.worker.accepted.length →
    s.worker.attempts.map Attempt.request = s.worker.accepted ∧ ServedAll svd m₀ s.worker.attempts s.manager

omit [Arith F] in
theorem requests_of_attempts (h : FieldWorker.Inv σ) : σ.attempts.map Attempt.request =
    σ.fired.map Prod.fst ++ (σ.phase.outcome.map Prod.fst).toList := by
  have hmap := congrArg (List.map Prod.fst) h.attempts
  rw [List.map_map, List.map_append] at hmap
  cases ho : σ.phase.outcome <;> simpa [ho, Function.comp_def] using hmap

omit [Arith F] in
theorem outcome_isPrefix (p : Phase F) : (p.outcome.map Prod.fst).toList <+: p.request.toList := by
  cases p <;> simp [Phase.outcome, Phase.request]

omit [Arith F] in
theorem outcome_of_request_eq_none {p : Phase F} (h : p.request = none) : p.outcome = none := by
  cases p <;> first | rfl | cases h

omit [Arith F] in
theorem request_of_settled (h : FieldWorker.Inv σ) (hlen : σ.fired.length = σ.accepted.length) :
    σ.phase.request = none ∧ σ.accepted = σ.fired.map Prod.fst := by
  have horder := h.order
  have hlen' := congrArg List.length horder
  rw [← hlen] at hlen'
  cases hr : σ.phase.request with
  | some r => simp [hr] at hlen'
  | none =>
    cases hd : σ.pendingCalculationData with
    | some r => simp [hr, hd] at hlen'
    | none => simpa [hr, hd] using horder

/-- **The requests are served one after another**, in any interleaving. -/
theorem requests_served (h : Reaches svd ⟨.init, m₀⟩ s) : Serial svd m₀ s := by
  have hw := (worker_reachable h).inv
  have hi := inv_reaches h
  have hrequests := requests_of_attempts hw
  refine ⟨?_, ?_, hi.served, hi.fitted, fun hlen => ?_⟩
  · rw [hrequests, hw.order, List.append_assoc]
    exact (List.prefix_append_right_inj _).mpr
      ((outcome_isPrefix s.worker.phase).trans (List.prefix_append _ _))
  · rw [hw.attempts]
    exact List.prefix_append _ _
  · obtain ⟨hnone, haccepted⟩ := request_of_settled hw hlen
    rw [hrequests, outcome_of_request_eq_none hnone, haccepted]
    refine ⟨List.append_nil _, hi.served fun r hr => ?_⟩
    rw [hr] at hnone
    cases hnone

/-! ## After an event -/

theorem ServedAll.last {as : List (Attempt F)} {a : Attempt F} (h : ServedAll svd m₀ as m')
    (ha : as.getLast? = some a) : ∃ as' m, ServedAll svd m₀ as' m ∧ Served svd m a m' := by
  cases h with
  | nil => cases ha
  | concat h hone =>
    rw [List.getLast?_concat, Option.some_inj] at ha
    subst ha
    exact ⟨_, _, h, hone⟩

theorem Served.of_succeeded {a : Attempt F} (h : Served svd m a m') (ha : a.succeeded = true) : ∃ fuel m₁,
    Ends svd m (.calculateSvdCoefficients a.request.data.measurements svdThreshold) (.ok ()) m₁ ∧
      Ends svd m₁ (.calculateField fuel a.request.data.grid a.request.data.radius a.request.data.length)
        (.ok ()) m' := by
  cases h with
  | unfit r o res m' h ho hne => simp [Attempt.succeeded] at ha
  | fitted r o res fuel m₁ m' h₁ h₂ ho =>
    obtain rfl : o = .success := by simpa [Attempt.succeeded] using ha
    obtain rfl := sees_success ho
    exact ⟨fuel, m₁, h₁, h₂⟩

/-- After an event with `true` the manager is the one that its request leaves. -/
theorem Inv.exists_ends (h : Inv svd m₀ s) (hw : FieldWorker.Inv s.worker)
    (hlast : s.worker.fired.getLast? = some (r, true)) (hidle : s.worker.phase.request = none) :
    ∃ as m fuel m₁, ServedAll svd m₀ as m ∧
      Ends svd m (.calculateSvdCoefficients r.data.measurements svdThreshold) (.ok ()) m₁ ∧
      Ends svd m₁ (.calculateField fuel r.data.grid r.data.radius r.data.length) (.ok ()) s.manager := by
  have hserved := h.served fun r' hr' => by
    rw [hr'] at hidle
    cases hidle
  have hattempts := hw.attempts
  rw [outcome_of_request_eq_none hidle, Option.toList_none, List.append_nil] at hattempts
  rw [← hattempts, List.getLast?_map] at hlast
  obtain ⟨a, ha, he⟩ := Option.map_eq_some_iff.mp hlast
  rw [Prod.mk.injEq] at he
  obtain ⟨rfl, hsuccess⟩ := he
  obtain ⟨as, m, hall, hone⟩ := hserved.last ha
  obtain ⟨fuel, m₁, h₁, h₂⟩ := hone.of_succeeded hsuccess
  exact ⟨as, m, fuel, m₁, hall, h₁, h₂⟩

theorem basisCollection_fit {ms : List (Measurement F)} {t : F}
    (h : Ends svd m (.calculateSvdCoefficients ms t) res m') : m'.basisCollection = m.basisCollection := by
  cases calculateSvdCoefficients_spec h <;> rfl

theorem basisCollection_field {fuel : ℕ} {g : Fin 3 → ℕ} {radius length : F}
    (h : Ends svd m (.calculateField fuel g radius length) res m') : m'.basisCollection = m.basisCollection := by
  cases calculateField_spec h <;> rfl

theorem ServedAll.basisCollection {as : List (Attempt F)} (h : ServedAll svd m₀ as m) :
    m.basisCollection = m₀.basisCollection := by
  induction h with
  | nil => rfl
  | concat _ ha ih =>
    rw [← ih]
    cases ha with
    | unfit r o res m' h ho hne => exact basisCollection_fit h
    | fitted r o res fuel m₁ m' h₁ h₂ ho => exact (basisCollection_field h₂).trans (basisCollection_fit h₁)

theorem exists_served {svd : JacobiSVD F} {m₀ m₁ m' : AnalyticsManager F} {fuel : ℕ} (data : CalculationData F)
    (hne : data.measurements.isEmpty = false)
    (h₁ : Ends svd m₀ (.calculateSvdCoefficients data.measurements svdThreshold) (.ok ()) m₁)
    (h₂ : Ends svd m₁ (.calculateField fuel data.grid data.radius data.length) (.ok ()) m') :
    ∃ s : State F, Reaches svd ⟨.init, m₀⟩ s ∧ s.worker.fired = [(⟨0, data⟩, true)] ∧
      s.worker.phase.request = none := by
  have hcall : Reaches svd ⟨.init, m₀⟩ ⟨{ (FieldWorker.State.init : FieldWorker.State F) with
      calls := [⟨.user 0, ⟨0, data⟩, .entered⟩], nextId := 1 }, m₀⟩ := by
    have hstep := FieldWorker.Step.call .init (.user 0) data rfl
    rw [FieldWorker.State.call, if_neg (by rw [hne]; decide)] at hstep
    exact .single (.protocol _ hstep fun h => nomatch h)
  have hsubmit := hcall.tail (.protocol _ (.submit _ [] [] ⟨.user 0, ⟨0, data⟩, .entered⟩ ⟨rfl, nofun⟩ rfl)
    fun h => nomatch h)
  have hwait := hsubmit.tail (.protocol _ (.wait _ rfl) fun h => nomatch h)
  have hfit := hwait.tail (.svdEnds ⟨0, data⟩ .success (.ok ()) _ rfl h₁ .success)
  have hfield := hfit.tail (.fieldEnds ⟨0, data⟩ .success (.ok ()) m' fuel rfl h₂ .success)
  have hclear := hfield.tail (.protocol _ (.clearFlag _ ⟨0, data⟩ true "" rfl) fun h => nomatch h)
  have hfire := hclear.tail (.protocol _ (.fire _ ⟨0, data⟩ true rfl) fun h => nomatch h)
  exact ⟨_, hfire, rfl, rfl⟩

section Exact

open Arith hiding max
open Export Pipeline Vtk

variable {svd : JacobiSVD ℝ} {m₀ : AnalyticsManager ℝ} {s : State ℝ} {r : Request ℝ}

/-- What the request of an event with `true` has left. -/
structure LeftBy (svd : JacobiSVD ℝ) (m₀ : AnalyticsManager ℝ) (r : Request ℝ) (m' : AnalyticsManager ℝ) : Prop where
  basis : m'.basisCollection = m₀.basisCollection
  /-- The coefficients are those of a fit of its measurements. -/
  fit : ∃ m m₁, m.basisCollection = m₀.basisCollection ∧ m₁.storedCoefficients = m'.storedCoefficients ∧
    Ends svd m (.calculateSvdCoefficients r.data.measurements svdThreshold) (.ok ()) m₁
  /-- The file of an export pictures the field on its grid. -/
  picture : Resolved r.data.grid r.data.radius r.data.length →
    (∀ fuel points, gridPoints fuel r.data.grid r.data.radius r.data.length = some points → ∀ p ∈ points, ¬ Near p) →
    ∀ (fs : FileSystem) (path : String), path ≠ "" → fs.Works path →
      ∃ rows file grid, Export.exportToVtk (export3dFieldToVtk fs) m' path = .ok file ∧
        Pictures m' r.data.grid r.data.radius r.data.length rows file grid

/-- While the handlers of an event with `true` run, and until the worker takes another request. -/
theorem leftBy_after_event (hs : Reaches svd ⟨.init, m₀⟩ s) (hlast : s.worker.fired.getLast? = some (r, true))
    (hidle : s.worker.phase.request = none) : LeftBy svd m₀ r s.manager := by
  obtain ⟨as, m, fuel, m₁, hall, hfit, hfield⟩ :=
    (inv_reaches hs).exists_ends (worker_reachable hs).inv hlast hidle
  have hm := hall.basisCollection
  have hm₁ := (basisCollection_fit hfit).trans hm
  generalize s.manager = m' at hfield ⊢
  cases calculateField_spec hfield with
  | completed fd₀ points bs ha hc =>
    exact ⟨hm₁, ⟨m, m₁, hm, rfl, hfit⟩, fun hres hnear fs path hpath hfs =>
      exists_pictures hres ha hc (hnear fuel points hc.grid) hpath hfs⟩

/-- **After an event with `true`**, while its handlers run and until the worker takes another request, the
stored coefficients are those of the measurements of its request, and an export writes the picture of their
field on its grid. -/
theorem export_after_event {basis : BasisCollection ℝ} (hb : create basis = .ok m₀)
    (hs : Reaches svd ⟨.init, m₀⟩ s) (hlast : s.worker.fired.getLast? = some (r, true))
    (hidle : s.worker.phase.request = none) (hres : Resolved r.data.grid r.data.radius r.data.length)
    (hnear : ∀ fuel points, gridPoints fuel r.data.grid r.data.radius r.data.length = some points →
      ∀ p ∈ points, ¬ Near p)
    {fs : FileSystem} {path : String} (hpath : path ≠ "") (hfs : fs.Works path) :
    SVDSolver.solveSvd svd (cylindricMeasurements r.data.measurements) basis.basis basis.modes svdThreshold =
        .ok s.manager.storedCoefficients ∧
      ∃ rows file grid, Export.exportToVtk (export3dFieldToVtk fs) s.manager path = .ok file ∧
        Pictures s.manager r.data.grid r.data.radius r.data.length rows file grid := by
  have hleft := leftBy_after_event hs hlast hidle
  obtain ⟨m, m₁, hm, hcoefficients, hfit⟩ := hleft.fit
  have hbasis : m.basisCollection = basis := by
    rw [hm]
    unfold create at hb
    split_ifs at hb
    cases hb
    rfl
  refine ⟨?_, hleft.picture hres hnear fs path hpath hfs⟩
  cases calculateSvdCoefficients_spec hfit with
  | stored cs hcs =>
    rw [hbasis] at hcs
    rw [← hcoefficients]
    exact hcs

end Exact

/-! ## The first request -/

section First

open Arith hiding max
open Export Pipeline Vtk

/-- `requests_served` for one request. -/
theorem requests_served_first : ∃ s : State ℝ, Reaches columnSVD ⟨.init, ⟨oneBasis, none, false, []⟩⟩ s ∧
    s.worker.fired ≠ [] ∧ Serial columnSVD ⟨oneBasis, none, false, []⟩ s := by
  obtain ⟨m', hends⟩ := exists_ends_constant
  obtain ⟨s, hs, hfired, -⟩ := exists_served firstData rfl ends_firstData hends
  refine ⟨s, hs, ?_, requests_served hs⟩
  rw [hfired]
  exact List.cons_ne_nil _ _

/-- `export_after_event` for it. -/
theorem export_after_event_first : ∃ (s : State ℝ) (rows : List (List (ℝ × ℝ))) (file : VtkFile ℝ)
    (grid : UnstructuredGrid ℝ), Reaches columnSVD ⟨.init, ⟨oneBasis, none, false, []⟩⟩ s ∧
      Export.exportToVtk (export3dFieldToVtk workingFiles) s.manager "field.vtk" = .ok file ∧
      Pictures s.manager (fun _ => 2) 1 1 rows file grid := by
  obtain ⟨m', hends⟩ := exists_ends_constant
  obtain ⟨s, hs, hfired, hidle⟩ := exists_served firstData rfl ends_firstData hends
  obtain ⟨-, rows, file, grid, hfile, hgrid⟩ := export_after_event (r := ⟨0, firstData⟩) create_oneBasis hs
    (by rw [hfired]; rfl) hidle resolved_unit (fun fuel points hp => not_near_unit hp)
    (by decide : "field.vtk" ≠ "") works_workingFiles
  exact ⟨s, rows, file, grid, hs, hfile, hgrid⟩

end First

end TPC.System.Requests
