import TPC.Lib.Runs
import TPC.System.FieldWorker

/-!
# The shutdown of the field worker

`field_worker_loop` with the two places at which it looks at its `stop_token`: the condition of the
loop, and `wait`. The destructor of `field_worker_` requests the stop and waits for the thread, in any
interleaving with the calls of `calculate_field_async`, some of them from the worker's own handlers.

* `State`: the field worker, its place in the loop, and the history since the stop;
* **`Step`**, `Step.refines`: every step is one of the field worker, or leaves it as it is;
* `own`, `remaining`: the steps that the worker still takes after the stop;
* `Inv`, `Inv.step`: what every step keeps;
* **`shutdown`**: the worker leaves after few steps of its own, and every request has its event but the
  last one, which may be dropped.
-/

namespace TPC.System.FieldShutdown

open FieldWorker

variable {F : Type}

/-- Where the worker stands in its loop while it calculates nothing. -/
inductive Loop
  /-- At the condition. -/
  | condition
  | body
  /-- The function has returned. -/
  | left
  deriving DecidableEq, Repr

/-- The field worker, its stop token, and the history: how many events had begun when the stop was
requested, and how many steps the worker has taken on its own since. -/
structure State (F : Type) where
  base : FieldWorker.State F
  loop : Loop
  stopRequested : Bool
  firedAtStop : ℕ
  own : ℕ

inductive Actor
  /-- A call of `calculate_field_async`, or the condition variable. -/
  | other
  | worker
  | destructor
  deriving DecidableEq, Repr

/-- Nothing has been called. -/
def State.init : State F := ⟨.init, .condition, false, 0, 0⟩

/-- A step of the worker. -/
def State.work (s : State F) (σ : FieldWorker.State F) (l : Loop) : State F :=
  { s with base := σ, loop := l, own := s.own + 1 }

/-- The worker is inside an iteration, after `wait`. -/
def iterating : Phase F → Bool
  | .notStarted | .atWait | .blocked | .inEventHandlers => false
  | _ => true

/-- One step of one thread. -/
inductive Step (s : State F) : Actor → State F → Prop
  | other (σ : FieldWorker.State F) (hs : FieldWorker.Step s.base σ)
    (hp : σ.phase = s.base.phase ∨ σ.phase = s.base.phase.start ∨ σ.phase = s.base.phase.notified) :
    Step s .other { s with base := σ }
  /-- The condition of the loop. -/
  | test (h : s.base.phase = .atWait) (hl : s.loop = .condition) :
    Step s .worker (s.work s.base (if s.stopRequested then .left else .body))
  /-- `wait` has looked at the token, and then evaluates its predicate. -/
  | wait (h : s.base.phase = .atWait) (hl : s.loop = .body)
    (hw : s.base.pendingCalculationData.isSome = true ∨ s.stopRequested = false) :
    Step s .worker (s.work s.base.wait .body)
  | wake (h : s.base.phase = .blocked) : Step s .worker (s.work { s.base with phase := .atWait } s.loop)
  /-- `wait` returns `false`. -/
  | leave (h : s.base.phase = .atWait) (hl : s.loop = .body)
    (hn : s.base.pendingCalculationData = none) (hr : s.stopRequested = true) :
    Step s .worker (s.work s.base .left)
  | iterate (σ : FieldWorker.State F) (h : iterating s.base.phase = true) (hs : FieldWorker.Step s.base σ)
    (hp : σ.phase ≠ s.base.phase) : Step s .worker (s.work σ s.loop)
  /-- The handlers of `field_was_calculated_` have returned. -/
  | handled (h : s.base.phase = .inEventHandlers) (hw : s.base.WorkerFree) :
    Step s .worker (s.work { s.base with phase := .atWait } .condition)
  /-- The destructor of a thread that was created. -/
  | requestStop (h : s.base.phase ≠ .notStarted) (hr : s.stopRequested = false) :
    Step s .destructor { s with stopRequested := true, firedAtStop := s.base.fired.length, own := 0 }

/-- The states of all runs. -/
abbrev Reachable : State F → Prop := Runs.Reachable Step .init

variable {s s' : State F} {σ : FieldWorker.State F} {a : Actor} {p q : Phase F}

/-- **Every step is one of the field worker**, or leaves it as it is. -/
theorem Step.refines (h : Step s a s') : FieldWorker.Step s.base s'.base ∨ s'.base = s.base := by
  cases h with
  | other σ hs hp => exact .inl hs
  | test | leave | requestStop => exact .inr rfl
  | wait h hl hw => exact .inl (.wait _ h)
  | wake h => exact .inl (.wake _ h)
  | iterate σ h hs hp => exact .inl hs
  | handled h hw => exact .inl (.handled _ h hw)

theorem base_reachable (h : Reachable s) : FieldWorker.Reachable s.base := by
  induction h with
  | init => exact .refl
  | step _ hs _ ih =>
    rcases hs.refines with hb | hb
    · exact ih.tail hb
    · rw [hb]
      exact ih

/-! ## What is left to do after the stop -/

/-- The steps of the worker up to its return, when the stop has been requested. -/
def remaining (l : Loop) : Phase F → ℕ
  | .atWait => match l with
    | .left => 0
    | .condition => 1
    | .body => 9
  | .inEventHandlers => 2
  | .firing .. => 3
  | .inErrorHandlers _ => 4
  | .reporting .. => 5
  | .calculated .. => 6
  | .calculatingField _ => 7
  | .calculatingSvd _ => 8
  | .blocked | .notStarted => 10

/-- The events that are still to come. -/
def owed (l : Loop) : Phase F → ℕ
  | .atWait => if l = .body then 1 else 0
  | .inEventHandlers => 0
  | _ => 1

theorem remaining_le (l : Loop) (p : Phase F) : remaining l p ≤ 10 := by
  cases p <;> cases l <;> simp [remaining]

theorem owed_le (l : Loop) (p : Phase F) : owed l p ≤ 1 := by
  cases p <;> cases l <;> simp [owed]

theorem other_phase (hp : q = p ∨ q = p.start ∨ q = p.notified) :
    q = p ∨ q = .atWait ∧ (p = .notStarted ∨ p = .blocked) := by
  rcases hp with rfl | rfl | rfl
  · exact .inl rfl
  · cases p <;> simp [Phase.start]
  · cases p <;> simp [Phase.notified]

theorem other_fired (h : FieldWorker.Step s.base σ)
    (hp : σ.phase = s.base.phase ∨ σ.phase = s.base.phase.start ∨ σ.phase = s.base.phase.notified) :
    σ.fired = s.base.fired := by
  cases h with
  | call t data hu =>
    unfold FieldWorker.State.call
    split_ifs <;> rfl
  | submit l₁ l₂ c hc hs =>
    rcases FieldWorker.State.submits_cases s.base l₁ c l₂ with ⟨-, he⟩ | ⟨-, he⟩ <;> rw [he]
  | wait hp =>
    unfold FieldWorker.State.wait
    split <;> rfl
  | svdEnds r o hp =>
    unfold FieldWorker.State.svdEnds
    split_ifs <;> rfl
  | fire r b hf => simp [hf, FieldWorker.State.fire, Phase.start, Phase.notified] at hp
  | _ => rfl

/-- What a step of an iteration does. -/
structure Advances (s : State F) (σ : FieldWorker.State F) : Prop where
  inside : iterating σ.phase = true ∨ σ.phase = .inEventHandlers
  remaining : remaining .body σ.phase < remaining .body s.base.phase
  fired : σ.fired.length + owed .body σ.phase = s.base.fired.length + owed .body s.base.phase

/-- **Inside an iteration** every step of the worker brings it closer to its return, and only the last
one begins an event. -/
theorem iterate_spec (h : FieldWorker.Step s.base σ) (hi : iterating s.base.phase = true)
    (hp : σ.phase ≠ s.base.phase) : Advances s σ := by
  cases h with
  | call t data hu =>
    unfold FieldWorker.State.call at hp
    split_ifs at hp <;> exact absurd rfl hp
  | submit l₁ l₂ c hc hs =>
    have hstart : s.base.phase.start = s.base.phase := by
      revert hi
      cases s.base.phase <;> simp [iterating, Phase.start]
    rcases FieldWorker.State.submits_cases s.base l₁ c l₂ with ⟨-, he⟩ | ⟨-, he⟩ <;> rw [he] at hp
    · exact absurd rfl hp
    · exact absurd hstart hp
  | notifyOne l₁ l₂ c hc hs =>
    refine absurd ?_ hp
    revert hi
    cases s.base.phase <;> simp [iterating, Phase.notified]
  | warn | warned => exact absurd rfl hp
  | wait h | wake h | handled h => simp [h, iterating] at hi
  | svdEnds r o h =>
    unfold FieldWorker.State.svdEnds
    split_ifs <;> constructor <;> simp [h, iterating, TPC.System.FieldShutdown.remaining, owed,
      FieldWorker.State.noteFit]
  | fieldEnds r o h | report r e h | reportFailed r e h | reported r h hw | fire r b h =>
    constructor <;> simp [h, iterating, TPC.System.FieldShutdown.remaining, owed,
      FieldWorker.State.fieldEnds, FieldWorker.State.report, FieldWorker.State.fire,
      FieldWorker.State.noteField, FieldWorker.State.noteError, FieldWorker.State.noteEvent]
  | clearFlag r b e h =>
    cases b <;> constructor <;> simp [h, iterating, TPC.System.FieldShutdown.remaining, owed,
      FieldWorker.State.clearFlag]

/-! ## The invariant -/

/-- What holds in every state. -/
structure Inv (s : State F) : Prop where
  /-- Between the condition of the loop and its end, -/
  body : iterating s.base.phase = true ∨ s.base.phase = .inEventHandlers ∨ s.base.phase = .blocked →
    s.loop = .body
  /-- before the first iteration, -/
  notStarted : s.base.phase = .notStarted → s.loop = .condition ∧ s.stopRequested = false
  /-- and after the last one. -/
  left : s.loop = .left → s.stopRequested = true
  bounded : s.stopRequested = true → s.own + remaining s.loop s.base.phase ≤ 10
  answered : s.stopRequested = true →
    s.base.fired.length + owed s.loop s.base.phase ≤ s.firedAtStop + 1

theorem inv_init : Inv (.init : State F) := by
  refine ⟨?_, fun _ => ⟨rfl, rfl⟩, nofun, nofun, nofun⟩
  rintro (h | h | h) <;> cases h

namespace Inv

theorem atWait_of_left (h : Inv s) (hl : s.loop = .left) : s.base.phase = .atWait := by
  have hbody := h.body
  have hstart := h.notStarted
  cases hp : s.base.phase <;> simp [hp, hl, iterating] at hbody hstart ⊢

theorem other (h : Inv s) (hs : FieldWorker.Step s.base σ)
    (hp : σ.phase = s.base.phase ∨ σ.phase = s.base.phase.start ∨ σ.phase = s.base.phase.notified) :
    Inv { s with base := σ } := by
  have hfired := other_fired hs hp
  rcases other_phase hp with hq | ⟨hq, hb | hb⟩
  · exact ⟨by simpa only [hq] using h.body, by simpa only [hq] using h.notStarted, h.left,
      by simpa only [hq] using h.bounded, by simpa only [hq, hfired] using h.answered⟩
  · obtain ⟨hl, hr⟩ := h.notStarted hb
    refine ⟨?_, ?_, h.left, ?_, ?_⟩
    · rintro (hi | hi | hi) <;> simp [hq, iterating] at hi
    · simp [hq]
    · simp [hr]
    · simp [hr]
  · have hl := h.body (.inr (.inr hb))
    have hbounded := h.bounded
    have hanswered := h.answered
    simp only [hb, remaining, owed] at hbounded hanswered
    refine ⟨fun _ => hl, fun hn => by simp [hq] at hn, h.left, fun hr => ?_, fun hr => ?_⟩
    · have := hbounded hr
      simp only [hq, hl, remaining]
      omega
    · have := hanswered hr
      simp only [hq, hl, owed, hfired, if_true]
      omega

theorem work (h : Inv s) (hl : s.loop = .body) (hstart : σ.phase ≠ .notStarted)
    (hrem : s.stopRequested = true → remaining .body σ.phase < remaining .body s.base.phase)
    (howed : s.stopRequested = true →
      σ.fired.length + owed .body σ.phase ≤ s.base.fired.length + owed .body s.base.phase) :
    Inv (s.work σ .body) where
  body _ := rfl
  notStarted hn := absurd hn hstart
  left := nofun
  bounded hr := by
    have h₁ := h.bounded hr
    have h₂ := hrem hr
    rw [hl] at h₁
    simp only [State.work]
    omega
  answered hr := by
    have h₁ := h.answered hr
    have h₂ := howed hr
    rw [hl] at h₁
    simp only [State.work]
    omega

theorem toLoop (h : Inv s) (l : Loop) (hq : σ.phase = .atWait) (hleft : l = .left → s.stopRequested = true)
    (hrem : s.stopRequested = true → remaining l σ.phase < remaining s.loop s.base.phase)
    (howed : s.stopRequested = true →
      σ.fired.length + owed l σ.phase ≤ s.base.fired.length + owed s.loop s.base.phase) :
    Inv (s.work σ l) where
  body hi := by simp [State.work, hq, iterating] at hi
  notStarted hn := by simp [State.work, hq] at hn
  left := hleft
  bounded hr := by
    have h₁ := h.bounded hr
    have h₂ := hrem hr
    simp only [State.work]
    omega
  answered hr := by
    have h₁ := h.answered hr
    have h₂ := howed hr
    simp only [State.work]
    omega

/-- **Every step keeps the invariant.** -/
theorem step (h : Inv s) (hs : Step s a s') : Inv s' := by
  cases hs with
  | other σ hs hp => exact h.other hs hp
  | test hp hl =>
    refine h.toLoop _ hp ?_ ?_ ?_ <;> intro hr
    · by_contra hn
      simp [hn] at hr
    · simp [hr, hp, hl, remaining]
    · simp [hr, hp, owed]
  | wait hp hl hw =>
    rcases hw with hw | hw
    · obtain ⟨r, hr⟩ := Option.isSome_iff_exists.mp hw
      rw [FieldWorker.State.wait_of_some hr]
      exact h.work hl nofun (fun _ => by simp [hp, remaining]) fun _ => by simp [hp, owed]
    · refine h.work hl ?_ (by simp [hw]) (by simp [hw])
      unfold FieldWorker.State.wait
      split <;> exact nofun
  | wake hp =>
    have hl := h.body (.inr (.inr hp))
    rw [hl]
    exact h.work hl nofun (fun _ => by simp [hp, remaining]) fun _ => by simp [hp, owed]
  | leave hp hl hn hr =>
    exact h.toLoop .left hp (fun _ => hr) (fun _ => by simp [hp, hl, remaining])
      fun _ => by simp [hp, owed]
  | iterate σ hi hs hp =>
    have hl := h.body (.inl hi)
    have hadv := iterate_spec hs hi hp
    rw [hl]
    refine h.work hl ?_ (fun _ => hadv.remaining) fun _ => hadv.fired.le
    intro hn
    rcases hadv.inside with hi' | hi' <;> simp [hn, iterating] at hi'
  | handled hp hw =>
    have hl := h.body (.inr (.inl hp))
    exact h.toLoop .condition rfl nofun (fun _ => by simp [hp, remaining]) fun _ => by simp [hp, owed]
  | requestStop hp hr =>
    refine ⟨h.body, fun hn => absurd hn hp, fun _ => rfl, fun _ => ?_, fun _ => ?_⟩
    · simpa using remaining_le s.loop s.base.phase
    · simpa using owed_le s.loop s.base.phase

/-- **The worker can go on**, unless it has left, or a call runs on its thread. -/
theorem goesOn (h : Inv s) (hr : s.stopRequested = true) (hl : s.loop ≠ .left)
    (hw : s.base.WorkerFree) : ∃ s', Step s .worker s' := by
  cases hp : s.base.phase with
  | notStarted => exact absurd (h.notStarted hp).2 (by simp [hr])
  | atWait =>
    cases hloop : s.loop with
    | left => exact absurd hloop hl
    | condition => exact ⟨_, .test hp hloop⟩
    | body =>
      cases hn : s.base.pendingCalculationData with
      | none => exact ⟨_, .leave hp hloop hn hr⟩
      | some r => exact ⟨_, .wait hp hloop (.inl (by rw [hn]; rfl))⟩
  | blocked => exact ⟨_, .wake hp⟩
  | inEventHandlers => exact ⟨_, .handled hp hw⟩
  | calculatingSvd r =>
    refine ⟨_, .iterate _ (by rw [hp]; rfl) (.svdEnds _ r .success hp) ?_⟩
    simp [hp, FieldWorker.State.svdEnds]
  | calculatingField r =>
    refine ⟨_, .iterate _ (by rw [hp]; rfl) (.fieldEnds _ r .success hp) ?_⟩
    simp [hp, FieldWorker.State.fieldEnds]
  | calculated r b e =>
    refine ⟨_, .iterate _ (by rw [hp]; rfl) (.clearFlag _ r b e hp) ?_⟩
    cases b <;> simp [hp, FieldWorker.State.clearFlag]
  | reporting r e =>
    refine ⟨_, .iterate _ (by rw [hp]; rfl) (.report _ r e hp) ?_⟩
    simp [hp, FieldWorker.State.report]
  | inErrorHandlers r => exact ⟨_, .iterate _ (by rw [hp]; rfl) (.reported _ r hp hw) (by simp [hp])⟩
  | firing r b =>
    refine ⟨_, .iterate _ (by rw [hp]; rfl) (.fire _ r b hp) ?_⟩
    simp [hp, FieldWorker.State.fire]

end Inv

/-- **The invariant holds in every reachable state.** -/
theorem inv_reachable (h : Reachable s) : Inv s :=
  h.invariant inv_init fun _ _ _ _ hi _ hs => hi.step hs

/-! ## The shutdown -/

/-- What the destructor of `field_worker_` relies on. -/
structure Shutdown (s : State F) : Prop where
  /-- The worker takes few steps, -/
  bounded : s.stopRequested = true → s.own ≤ 10
  /-- it never waits for more than the calls that its own handlers have made, -/
  goesOn : s.stopRequested = true → s.loop ≠ .left → s.base.WorkerFree → ∃ s', Step s .worker s'
  /-- and it calculates one more request at most. -/
  answered : s.stopRequested = true → s.base.fired.length ≤ s.firedAtStop + 1
  /-- It returns on a stop only. Then each request has had its event, in the order of the calls, but for
  one that nobody calculates any more; with it the flag stays up. -/
  left : s.loop = .left → s.stopRequested = true ∧ (∀ s', ¬ Step s .worker s') ∧
    s.base.accepted = s.base.fired.map Prod.fst ++ s.base.pendingCalculationData.toList ∧
    s.base.fieldCalculationInProgress = s.base.pendingCalculationData.isSome

/-- A worker that has left takes no step. -/
theorem Inv.not_step_of_left (h : Inv s) (hl : s.loop = .left) : ¬ Step s .worker s' := by
  have hp := h.atWait_of_left hl
  intro hs
  cases hs <;> simp_all [iterating]

/-- **The shutdown**: in every interleaving, whenever the stop is requested. -/
theorem shutdown (h : Reachable s) : Shutdown s where
  bounded hr := by
    have := (inv_reachable h).bounded hr
    omega
  goesOn hr hl hw := (inv_reachable h).goesOn hr hl hw
  answered hr := by
    have := (inv_reachable h).answered hr
    omega
  left hl := by
    have hinv := inv_reachable h
    have hp := hinv.atWait_of_left hl
    have hbase := (base_reachable h).inv
    refine ⟨hinv.left hl, fun s' => hinv.not_step_of_left hl, ?_, ?_⟩
    · simpa [hp, Phase.request] using hbase.order
    · simpa [hp, Phase.busy] using hbase.flag

/-- The stop is requested before the worker has come to the condition of its loop, with a request
pending. -/
def droppedState : State ℕ where
  base := {
    pendingCalculationData := some ⟨0, oneMeasurement⟩
    fieldCalculationInProgress := true
    phase := .atWait
    calls := [⟨.user 0, ⟨0, oneMeasurement⟩, .accepted⟩]
    nextId := 1
    accepted := [⟨0, oneMeasurement⟩]
    warnings := []
    attempts := []
    errors := []
    fired := [] }
  loop := .left
  stopRequested := true
  firedAtStop := 0
  own := 1

theorem reachable_droppedState : Reachable droppedState :=
  (((Runs.Reach.init.then (.other _ (.call .init (.user 0) oneMeasurement rfl) (.inl rfl))).then
    (.other _ (.submit _ [] [] ⟨.user 0, ⟨0, oneMeasurement⟩, .entered⟩ ⟨rfl, nofun⟩ rfl) (.inr (.inl rfl)))).then
    (.requestStop nofun rfl)).then (.test rfl rfl)

/-- `shutdown` when a request is dropped. -/
theorem shutdown_droppedState : Shutdown droppedState :=
  shutdown reachable_droppedState

end TPC.System.FieldShutdown
