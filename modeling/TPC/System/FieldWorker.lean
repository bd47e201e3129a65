import Mathlib
import TPC.Analytics.Models

/-!
# The field worker

`TPC::calculate_field_async` and `TPC::field_worker_loop`, in every interleaving of any number of
calls with the worker. Each critical section of `field_worker_mutex_` is one step, and so is each
thing that happens outside it: `notify_one`, an event, the end of its handlers, a calculation.

* `AsyncCall`, `Phase`, `State`: where each call and the worker stand, and the history of the run;
* `submit`, `wait`; `noteAnswer`, `noteEvent`: the critical sections, and the history that goes along;
  **`Step`**: the steps of all threads;
* `Inv`, **`Inv.step`**, **`Reachable.inv`**: what every step keeps;
* **`Reachable.protocol`**: no request is lost, doubled, overwritten or answered for another.
-/

namespace TPC.System

open Analytics

/-- `models::CalculationData`. -/
structure CalculationData (F : Type) where
  grid : Fin 3 → ℕ
  measurements : List (Measurement F)
  radius : F
  length : F

namespace FieldWorker

variable {F : Type}

/-- A call's arguments, with the number of the call. -/
structure Request (F : Type) where
  id : ℕ
  data : CalculationData F

/-- The field worker, and all the other threads. -/
inductive Thread
  | worker
  | user (n : ℕ)
  deriving DecidableEq, Repr

/-- Where a call of `calculate_field_async` stands: before its critical section; after it, before
`notify_one` or the warning; inside the handlers of the warning. -/
inductive Stage
  | entered
  | accepted
  | rejected
  | warning
  deriving DecidableEq, Repr

/-- A call of `calculate_field_async` that has not returned. -/
structure AsyncCall (F : Type) where
  thread : Thread
  request : Request F
  stage : Stage

/-- How `calculate_svd_coefficients` or `calculate_field` ends. A `std::exception` has a text, an
object of another type has none. -/
inductive Outcome
  | success
  | error (text : String)
  | exception (what : Option String)
  deriving DecidableEq, Repr

/-- The `error` that the `try` block and its handlers leave. -/
def Outcome.message : Outcome → String
  | success => ""
  | error text => text
  | exception (some what) => what
  | exception none => "Unknown error during field calculation"

/-- Where `field_worker_loop` stands. -/
inductive Phase (F : Type)
  /-- The thread has not been created. -/
  | notStarted
  /-- Before the critical section with `wait`, or woken up in it. -/
  | atWait
  | blocked
  | calculatingSvd (request : Request F)
  | calculatingField (request : Request F)
  /-- After the `try` block. -/
  | calculated (request : Request F) (calculationSucceeded : Bool) (error : String)
  /-- Before `error_occurred_`. -/
  | reporting (request : Request F) (error : String)
  | inErrorHandlers (request : Request F)
  /-- Before `field_was_calculated_`. -/
  | firing (request : Request F) (calculationSucceeded : Bool)
  | inEventHandlers

/-- What the worker did with one request. -/
structure Attempt (F : Type) where
  request : Request F
  svd : Outcome
  field : Option Outcome

/-- Both calculations succeeded. -/
def Attempt.succeeded (a : Attempt F) : Bool := a.svd = .success ∧ a.field = some .success

/-- The members that the two functions share, the threads, and the history of the run: the calls
numbered so far, the requests accepted, the warnings, the attempts, the errors reported and the
`field_was_calculated_` events begun, each in its order. -/
structure State (F : Type) where
  pendingCalculationData : Option (Request F)
  fieldCalculationInProgress : Bool
  phase : Phase F
  /-- The latest first: on one thread, only the first can go on. -/
  calls : List (AsyncCall F)
  nextId : ℕ
  accepted : List (Request F)
  warnings : List (ℕ × String)
  attempts : List (Attempt F)
  errors : List (Request F × String)
  fired : List (Request F × Bool)

namespace Phase

/-- The first accepted request creates the thread. -/
def start : Phase F → Phase F
  | notStarted => atWait
  | p => p

/-- `notify_one`. -/
def notified : Phase F → Phase F
  | blocked => atWait
  | p => p

/-- The worker runs handlers of its two events. -/
def inHandlers : Phase F → Bool
  | inErrorHandlers _ | inEventHandlers => true
  | _ => false

/-- Between the critical section that takes a request and the one that clears the flag. -/
def busy : Phase F → Bool
  | calculatingSvd _ | calculatingField _ | calculated .. => true
  | _ => false

/-- The request taken, until its event. -/
def request : Phase F → Option (Request F)
  | calculatingSvd r | calculatingField r | calculated r .. | reporting r _ | inErrorHandlers r
  | firing r _ => some r
  | _ => none

/-- The request calculated, until its event. -/
def outcome : Phase F → Option (Request F × Bool)
  | calculated r b _ | firing r b => some (r, b)
  | reporting r _ | inErrorHandlers r => some (r, false)
  | _ => none

@[simp] theorem busy_start (p : Phase F) : p.start.busy = p.busy := by cases p <;> rfl

@[simp] theorem request_start (p : Phase F) : p.start.request = p.request := by cases p <;> rfl

@[simp] theorem outcome_start (p : Phase F) : p.start.outcome = p.outcome := by cases p <;> rfl

@[simp] theorem busy_notified (p : Phase F) : p.notified.busy = p.busy := by cases p <;> rfl

@[simp] theorem request_notified (p : Phase F) : p.notified.request = p.request := by
  cases p <;> rfl

@[simp] theorem outcome_notified (p : Phase F) : p.notified.outcome = p.outcome := by
  cases p <;> rfl

theorem notified_ne_blocked (p : Phase F) : p.notified ≠ blocked := by
  cases p <;> exact nofun

end Phase

/-- The text of the warning. -/
def alreadyInProgress : String := "Field calculation is already in progress"

namespace State

/-- Nothing has been called. -/
def init : State F := ⟨none, false, .notStarted, [], 0, [], [], [], [], []⟩

/-- The thread runs code of the user: outside any call of `calculate_field_async` or in a handler of
its warning, and on the worker only in a handler. -/
def runsUserCode (σ : State F) (t : Thread) : Bool :=
  match σ.calls.find? fun c => c.thread = t with
  | some c => c.stage = .warning
  | none => t ≠ .worker || σ.phase.inHandlers

/-- The start of `calculate_field_async`: without measurements it returns at once. -/
def call (σ : State F) (t : Thread) (data : CalculationData F) : State F :=
  if data.measurements.isEmpty then σ
  else { σ with calls := ⟨t, ⟨σ.nextId, data⟩, .entered⟩ :: σ.calls, nextId := σ.nextId + 1 }

/-- The critical section of `calculate_field_async`. -/
def submit (σ : State F) (r : Request F) : Stage × State F :=
  if σ.fieldCalculationInProgress then (.rejected, σ)
  else (.accepted, { σ with
    phase := σ.phase.start
    pendingCalculationData := some r
    fieldCalculationInProgress := true })

/-- The critical section of `field_worker_loop` with `wait`. -/
def wait (σ : State F) : State F :=
  match σ.pendingCalculationData with
  | some r => { σ with phase := .calculatingSvd r, pendingCalculationData := none }
  | none => { σ with phase := .blocked }

theorem submit_of_inProgress {σ : State F} (h : σ.fieldCalculationInProgress = true)
    (r : Request F) : σ.submit r = (.rejected, σ) := if_pos h

theorem submit_of_not_inProgress {σ : State F} (h : σ.fieldCalculationInProgress = false)
    (r : Request F) : σ.submit r = (.accepted, { σ with
      phase := σ.phase.start
      pendingCalculationData := some r
      fieldCalculationInProgress := true }) := if_neg (by simp [h])

theorem wait_of_none {σ : State F} (h : σ.pendingCalculationData = none) :
    σ.wait = { σ with phase := .blocked } := by
  rw [wait, h]

theorem wait_of_some {σ : State F} {r : Request F} (h : σ.pendingCalculationData = some r) :
    σ.wait = { σ with phase := .calculatingSvd r, pendingCalculationData := none } := by
  rw [wait, h]

/-- `calculate_svd_coefficients` has ended. -/
def svdEnds (σ : State F) (r : Request F) (o : Outcome) : State F :=
  if o = .success then { σ with phase := .calculatingField r }
  else { σ with phase := .calculated r false o.message }

/-- `calculate_field` has ended. -/
def fieldEnds (σ : State F) (r : Request F) (o : Outcome) : State F :=
  { σ with phase := .calculated r (decide (o = .success)) o.message }

/-- The critical section that clears the flag. -/
def clearFlag (σ : State F) (r : Request F) (calculationSucceeded : Bool) (error : String) :
    State F :=
  { σ with
    fieldCalculationInProgress := false
    phase := if calculationSucceeded then .firing r true else .reporting r error }

/-- `error_occurred_` begins. -/
def report (σ : State F) (r : Request F) : State F := { σ with phase := .inErrorHandlers r }

/-- `field_was_calculated_` begins. -/
def fire (σ : State F) : State F := { σ with phase := .inEventHandlers }

/-! The history, which the steps advance beside the code. -/

/-- The answer that the critical section is about to give. -/
def noteAnswer (σ : State F) (r : Request F) : State F :=
  { σ with accepted := if (σ.submit r).1 = .accepted then σ.accepted ++ [r] else σ.accepted }

/-- The end of an attempt that has failed with the coefficients, -/
def noteFit (σ : State F) (r : Request F) (o : Outcome) : State F :=
  { σ with attempts := if o = .success then σ.attempts else σ.attempts ++ [⟨r, o, none⟩] }

/-- and of one that has come to the field. -/
def noteField (σ : State F) (r : Request F) (o : Outcome) : State F :=
  { σ with attempts := σ.attempts ++ [⟨r, .success, some o⟩] }

def noteError (σ : State F) (r : Request F) (error : String) : State F :=
  { σ with errors := σ.errors ++ [(r, "Field calculation failed: " ++ error)] }

def noteEvent (σ : State F) (r : Request F) (calculationSucceeded : Bool) : State F :=
  { σ with fired := σ.fired ++ [(r, calculationSucceeded)] }

/-- The critical section of the call `c`, with its answer. -/
def submits (σ : State F) (l₁ : List (AsyncCall F)) (c : AsyncCall F) (l₂ : List (AsyncCall F)) : State F :=
  { ((σ.noteAnswer c.request).submit c.request).2 with
    calls := l₁ ++ { c with stage := (σ.submit c.request).1 } :: l₂ }

/-- The call is rejected while the flag is up, and accepted else. -/
theorem submits_cases (σ : State F) (l₁ : List (AsyncCall F)) (c : AsyncCall F) (l₂ : List (AsyncCall F)) :
    σ.fieldCalculationInProgress = true ∧
      σ.submits l₁ c l₂ = { σ with calls := l₁ ++ { c with stage := .rejected } :: l₂ } ∨
    σ.fieldCalculationInProgress = false ∧ σ.submits l₁ c l₂ = { σ with
      phase := σ.phase.start
      pendingCalculationData := some c.request
      fieldCalculationInProgress := true
      accepted := σ.accepted ++ [c.request]
      calls := l₁ ++ { c with stage := .accepted } :: l₂ } := by
  by_cases hf : σ.fieldCalculationInProgress = true
  · have hnote : σ.noteAnswer c.request = σ := by rw [noteAnswer, submit_of_inProgress hf, if_neg nofun]
    exact .inl ⟨hf, by rw [submits, hnote, submit_of_inProgress hf]⟩
  · rw [Bool.not_eq_true] at hf
    have hnote : σ.noteAnswer c.request = { σ with accepted := σ.accepted ++ [c.request] } := by
      rw [noteAnswer, submit_of_not_inProgress hf, if_pos rfl]
    refine .inr ⟨hf, ?_⟩
    rw [submits, hnote, submit_of_not_inProgress hf,
      submit_of_not_inProgress (σ := { σ with accepted := σ.accepted ++ [c.request] }) hf]

/-- The innermost call on its thread. -/
structure Innermost (σ : State F) (l₁ : List (AsyncCall F)) (c : AsyncCall F)
    (l₂ : List (AsyncCall F)) : Prop where
  calls : σ.calls = l₁ ++ c :: l₂
  first : ∀ d ∈ l₁, d.thread ≠ c.thread

theorem Innermost.mem_append {σ : State F} {l₁ l₂ : List (AsyncCall F)} {c d : AsyncCall F}
    (h : σ.Innermost l₁ c l₂) (hd : d ∈ σ.calls) (hs : d.stage ≠ c.stage) : d ∈ l₁ ++ l₂ := by
  rw [h.calls, List.mem_append, List.mem_cons] at hd
  rcases hd with hd | rfl | hd
  · exact List.mem_append_left _ hd
  · exact absurd rfl hs
  · exact List.mem_append_right _ hd

theorem Innermost.mem_of_ne_stage {σ : State F} {l₁ l₂ : List (AsyncCall F)} {c d : AsyncCall F}
    (h : σ.Innermost l₁ c l₂) (hd : d ∈ σ.calls) (hs : d.stage ≠ c.stage) (c' : AsyncCall F) :
    d ∈ l₁ ++ c' :: l₂ := by
  have := h.mem_append hd hs
  simp only [List.mem_append, List.mem_cons] at this ⊢
  tauto

/-- No call is running on the worker. -/
def WorkerFree (σ : State F) : Prop := ∀ c ∈ σ.calls, c.thread ≠ .worker

end State

open State

variable {σ σ' : State F} {l₁ l₂ : List (AsyncCall F)} {c : AsyncCall F} {r : Request F}

/-- One step of one thread. -/
inductive Step : State F → State F → Prop
  | call (σ : State F) (t : Thread) (data : CalculationData F) (h : σ.runsUserCode t = true) :
    Step σ (σ.call t data)
  | submit (σ : State F) (l₁ l₂ : List (AsyncCall F)) (c : AsyncCall F) (h : σ.Innermost l₁ c l₂)
    (hs : c.stage = .entered) : Step σ (σ.submits l₁ c l₂)
  | notifyOne (σ : State F) (l₁ l₂ : List (AsyncCall F)) (c : AsyncCall F)
    (h : σ.Innermost l₁ c l₂) (hs : c.stage = .accepted) :
    Step σ { σ with phase := σ.phase.notified, calls := l₁ ++ l₂ }
  | warn (σ : State F) (l₁ l₂ : List (AsyncCall F)) (c : AsyncCall F) (h : σ.Innermost l₁ c l₂)
    (hs : c.stage = .rejected) :
    Step σ { σ with
      warnings := σ.warnings ++ [(c.request.id, alreadyInProgress)]
      calls := l₁ ++ { c with stage := .warning } :: l₂ }
  /-- The handlers of the warning have returned, or one has thrown to the caller. -/
  | warned (σ : State F) (l₁ l₂ : List (AsyncCall F)) (c : AsyncCall F) (h : σ.Innermost l₁ c l₂)
    (hs : c.stage = .warning) : Step σ { σ with calls := l₁ ++ l₂ }
  | wait (σ : State F) (h : σ.phase = .atWait) : Step σ σ.wait
  /-- `wait` may also wake up on its own. -/
  | wake (σ : State F) (h : σ.phase = .blocked) : Step σ { σ with phase := .atWait }
  | svdEnds (σ : State F) (r : Request F) (o : Outcome) (h : σ.phase = .calculatingSvd r) :
    Step σ ((σ.noteFit r o).svdEnds r o)
  | fieldEnds (σ : State F) (r : Request F) (o : Outcome) (h : σ.phase = .calculatingField r) :
    Step σ ((σ.noteField r o).fieldEnds r o)
  | clearFlag (σ : State F) (r : Request F) (b : Bool) (e : String)
    (h : σ.phase = .calculated r b e) : Step σ (σ.clearFlag r b e)
  | report (σ : State F) (r : Request F) (e : String) (h : σ.phase = .reporting r e) :
    Step σ ((σ.noteError r e).report r)
  /-- Formatting the error or copying the handlers has thrown. -/
  | reportFailed (σ : State F) (r : Request F) (e : String) (h : σ.phase = .reporting r e) :
    Step σ { σ with phase := .firing r false }
  /-- The handlers have returned, or what one has thrown is dropped. -/
  | reported (σ : State F) (r : Request F) (h : σ.phase = .inErrorHandlers r)
    (hw : σ.WorkerFree) : Step σ { σ with phase := .firing r false }
  | fire (σ : State F) (r : Request F) (b : Bool) (h : σ.phase = .firing r b) :
    Step σ (σ.noteEvent r b).fire
  /-- The handlers have returned, or what one has thrown is dropped. -/
  | handled (σ : State F) (h : σ.phase = .inEventHandlers) (hw : σ.WorkerFree) :
    Step σ { σ with phase := .atWait }

/-- The states of all runs. -/
def Reachable (σ : State F) : Prop := Relation.ReflTransGen Step init σ

/-! ## The invariant -/

/-- The number of a call that has been neither accepted nor warned. -/
def AsyncCall.undecided (c : AsyncCall F) : Option ℕ :=
  match c.stage with
  | .entered | .rejected => some c.request.id
  | .accepted | .warning => none

/-- How often a call has been answered, or is still to be. -/
def State.answers (σ : State F) (id : ℕ) : ℕ :=
  (σ.calls.filterMap AsyncCall.undecided).count id + (σ.accepted.map Request.id).count id +
    σ.warnings.count (id, alreadyInProgress)

/-- What holds in every state. -/
structure Inv (σ : State F) : Prop where
  /-- The flag is up while a request is pending or being calculated, -/
  flag : σ.fieldCalculationInProgress = (σ.pendingCalculationData.isSome || σ.phase.busy)
  /-- never both. -/
  taken : σ.phase.busy = true → σ.pendingCalculationData = none
  /-- The accepted requests are those with an event, the one taken, and the one pending. -/
  order : σ.accepted = σ.fired.map Prod.fst ++ σ.phase.request.toList ++
    σ.pendingCalculationData.toList
  attempts : σ.attempts.map (fun a => (a.request, a.succeeded)) =
    σ.fired ++ σ.phase.outcome.toList
  once : ∀ id, σ.answers id = if id < σ.nextId then 1 else 0
  /-- A blocked worker with a request pending is about to be notified. -/
  wakes : σ.phase = .blocked → σ.pendingCalculationData.isSome → ∃ c ∈ σ.calls, c.stage = .accepted

theorem inv_init : Inv (init : State F) := by
  refine ⟨rfl, fun _ => rfl, rfl, rfl, fun id => rfl, nofun⟩

namespace Inv

theorem setPhase (h : Inv σ) {q : Phase F} (hq : σ.phase = q) (p : Phase F)
    (hb : p.busy = q.busy) (hr : p.request = q.request) (ho : p.outcome = q.outcome)
    (hp : p ≠ .blocked) : Inv { σ with phase := p } where
  flag := by rw [hb, ← hq]; exact h.flag
  taken := by rw [hb, ← hq]; exact h.taken
  order := by rw [hr, ← hq]; exact h.order
  attempts := by rw [ho, ← hq]; exact h.attempts
  once := h.once
  wakes hp' := absurd hp' hp

theorem setCalls (h : Inv σ) (calls : List (AsyncCall F))
    (hu : calls.filterMap AsyncCall.undecided = σ.calls.filterMap AsyncCall.undecided)
    (hw : σ.phase ≠ .blocked ∨ ∀ c ∈ σ.calls, c.stage = .accepted → c ∈ calls) :
    Inv { σ with calls := calls } where
  flag := h.flag
  taken := h.taken
  order := h.order
  attempts := h.attempts
  once id := by rw [← h.once id, answers, answers, hu]
  wakes hb hp := by
    obtain ⟨c, hc, hs⟩ := h.wakes hb hp
    exact ⟨c, hw.resolve_left (not_not_intro hb) c hc hs, hs⟩

theorem call (h : Inv σ) (t : Thread) (data : CalculationData F) : Inv (σ.call t data) := by
  unfold State.call
  split_ifs
  · exact h
  refine ⟨h.flag, h.taken, h.order, h.attempts, fun id => ?_, fun hb hp => ?_⟩
  · have := h.once id
    simp only [answers, List.filterMap_cons, AsyncCall.undecided, List.count_cons, beq_iff_eq]
      at this ⊢
    split_ifs at this ⊢ <;> omega
  · obtain ⟨c, hc, hs⟩ := h.wakes hb hp
    exact ⟨c, List.mem_cons_of_mem _ hc, hs⟩

theorem submit (h : Inv σ) (hc : σ.Innermost l₁ c l₂) (hs : c.stage = .entered) :
    Inv (σ.submits l₁ c l₂) := by
  have hcalls := hc.calls
  rcases submits_cases σ l₁ c l₂ with ⟨hf, he⟩ | ⟨hf, he⟩
  · rw [he]
    refine h.setCalls _ ?_ (.inr fun d hd hds => ?_)
    · simp [hcalls, AsyncCall.undecided, hs]
    · exact hc.mem_of_ne_stage hd (by simp [hds, hs]) _
  · rw [he]
    have hflag := h.flag
    rw [hf, eq_comm, Bool.or_eq_false_iff] at hflag
    have hnone : σ.pendingCalculationData = none := by simpa using hflag.1
    refine ⟨rfl, fun hb => ?_, ?_, ?_, fun id => ?_, fun _ _ => ?_⟩
    · rw [Phase.busy_start, hflag.2] at hb
      cases hb
    · simp [h.order, hnone]
    · simpa using h.attempts
    · have := h.once id
      simp only [answers, hcalls, List.filterMap_append, List.filterMap_cons, AsyncCall.undecided,
        hs, List.count_append, List.count_cons, List.map_append, List.map_cons, List.map_nil,
        List.count_nil] at this ⊢
      omega
    · exact ⟨{ c with stage := .accepted }, by simp, rfl⟩

theorem warn (h : Inv σ) (hc : σ.Innermost l₁ c l₂) (hs : c.stage = .rejected) :
    Inv { σ with
      warnings := σ.warnings ++ [(c.request.id, alreadyInProgress)]
      calls := l₁ ++ { c with stage := .warning } :: l₂ } := by
  have hcalls := hc.calls
  refine ⟨h.flag, h.taken, h.order, h.attempts, fun id => ?_, fun hb hp => ?_⟩
  · have := h.once id
    simp only [answers, hcalls, List.filterMap_append, List.filterMap_cons, AsyncCall.undecided,
      hs, List.count_append, List.count_cons, List.count_nil, beq_iff_eq, Prod.mk.injEq,
      and_true] at this ⊢
    omega
  · obtain ⟨d, hd, hds⟩ := h.wakes hb hp
    exact ⟨d, hc.mem_of_ne_stage hd (by simp [hds, hs]) _, hds⟩

theorem wait (h : Inv σ) (hp : σ.phase = .atWait) : Inv σ.wait := by
  have hflag := h.flag
  have horder := h.order
  have hattempts := h.attempts
  rw [hp] at hflag horder hattempts
  cases hd : σ.pendingCalculationData with
  | none =>
    rw [wait_of_none hd]
    exact ⟨hflag, fun _ => hd, horder, hattempts, h.once, fun _ hs => by simp [hd] at hs⟩
  | some r =>
    rw [wait_of_some hd]
    rw [hd] at hflag horder
    exact ⟨hflag, fun _ => rfl, by simpa [Phase.request] using horder, hattempts, h.once, nofun⟩

theorem svdEnds (h : Inv σ) (hp : σ.phase = .calculatingSvd r) (o : Outcome) :
    Inv ((σ.noteFit r o).svdEnds r o) := by
  unfold State.svdEnds noteFit
  split_ifs with ho
  · exact h.setPhase hp _ rfl rfl rfl nofun
  · have hflag := h.flag
    have htaken := h.taken
    have horder := h.order
    have hattempts := h.attempts
    rw [hp] at hflag htaken horder hattempts
    refine ⟨hflag, htaken, horder, ?_, h.once, nofun⟩
    simp only [List.map_append, hattempts, Phase.outcome, Option.toList, List.append_nil]
    simp [Attempt.succeeded, ho]

theorem fieldEnds (h : Inv σ) (hp : σ.phase = .calculatingField r) (o : Outcome) :
    Inv ((σ.noteField r o).fieldEnds r o) := by
  have hflag := h.flag
  have htaken := h.taken
  have horder := h.order
  have hattempts := h.attempts
  rw [hp] at hflag htaken horder hattempts
  refine ⟨hflag, htaken, horder, ?_, h.once, nofun⟩
  simp only [State.fieldEnds, noteField, List.map_append, hattempts, Phase.outcome, Option.toList,
    List.append_nil]
  simp [Attempt.succeeded]

/-- The flag goes down before the events: from here on a new request may become pending. -/
theorem clearFlag (h : Inv σ) {b : Bool} {e : String} (hp : σ.phase = .calculated r b e) :
    Inv (σ.clearFlag r b e) := by
  have hnone : σ.pendingCalculationData = none := h.taken (by rw [hp]; rfl)
  have horder := h.order
  have hattempts := h.attempts
  rw [hp] at horder hattempts
  cases b with
  | true => exact ⟨by simp [State.clearFlag, hnone, Phase.busy], nofun, horder, hattempts, h.once, nofun⟩
  | false =>
    exact ⟨by simp [State.clearFlag, hnone, Phase.busy], nofun, horder, hattempts, h.once, nofun⟩

theorem fire (h : Inv σ) {b : Bool} (hp : σ.phase = .firing r b) : Inv (σ.noteEvent r b).fire := by
  have hflag := h.flag
  have horder := h.order
  have hattempts := h.attempts
  rw [hp] at hflag horder hattempts
  refine ⟨hflag, nofun, ?_, ?_, h.once, nofun⟩
  · simpa [State.fire, noteEvent, Phase.request] using horder
  · simpa [State.fire, noteEvent, Phase.outcome] using hattempts

/-- **Every step keeps the invariant.** -/
theorem step (h : Inv σ) (hs : Step σ σ') : Inv σ' := by
  cases hs with
  | call t data hu => exact h.call t data
  | submit l₁ l₂ c hc hs => exact h.submit hc hs
  | notifyOne l₁ l₂ c hc hs =>
    have hn : Inv { σ with phase := σ.phase.notified } :=
      h.setPhase rfl _ (by simp) (by simp) (by simp) σ.phase.notified_ne_blocked
    refine hn.setCalls _ ?_ (.inl σ.phase.notified_ne_blocked)
    simp [hc.calls, AsyncCall.undecided, hs]
  | warn l₁ l₂ c hc hs => exact h.warn hc hs
  | warned l₁ l₂ c hc hs =>
    refine h.setCalls _ ?_ (.inr fun d hd hds => ?_)
    · simp [hc.calls, AsyncCall.undecided, hs]
    · exact hc.mem_append hd (by simp [hds, hs])
  | wait hp => exact h.wait hp
  | wake hp => exact h.setPhase hp _ rfl rfl rfl nofun
  | svdEnds r o hp => exact h.svdEnds hp o
  | fieldEnds r o hp => exact h.fieldEnds hp o
  | clearFlag r b e hp => exact h.clearFlag hp
  | report r e hp =>
    have hn : Inv { σ with phase := .inErrorHandlers r } := h.setPhase hp _ rfl rfl rfl nofun
    exact ⟨hn.flag, hn.taken, hn.order, hn.attempts, hn.once, hn.wakes⟩
  | reportFailed r e hp => exact h.setPhase hp _ rfl rfl rfl nofun
  | reported r hp hw => exact h.setPhase hp _ rfl rfl rfl nofun
  | fire r b hp => exact h.fire hp
  | handled hp hw => exact h.setPhase hp _ rfl rfl rfl nofun

end Inv

/-- **The invariant holds in every reachable state.** -/
theorem Reachable.inv (h : Reachable σ) : Inv σ := by
  induction h with
  | refl => exact inv_init
  | tail _ hs ih => exact ih.step hs

/-! ## The protocol -/

/-- What the users of the two functions rely on. -/
structure Protocol (σ : State F) : Prop where
  /-- A request is pending only while the flag is up. -/
  pending : σ.pendingCalculationData.isSome = true → σ.fieldCalculationInProgress = true
  /-- A pending request stays until the worker takes it. -/
  kept : ∀ r, σ.pendingCalculationData = some r → ∀ σ', Step σ σ' →
    σ'.pendingCalculationData = some r ∨
      σ'.pendingCalculationData = none ∧ σ'.phase = .calculatingSvd r
  /-- Every call is accepted once, or warned once, or has not been answered. -/
  answered : ∀ id < σ.nextId, (σ.accepted.map Request.id).count id +
    σ.warnings.count (id, alreadyInProgress) =
      if ∃ c ∈ σ.calls, c.undecided = some id then 0 else 1
  /-- The `k`-th event is that of the `k`-th request accepted, and tells how its calculation
  ended. -/
  events : ∀ (k : ℕ) (r : Request F) (b : Bool), σ.fired[k]? = some (r, b) → σ.accepted[k]? = some r ∧
    ∃ a : Attempt F, σ.attempts[k]? = some a ∧ a.request = r ∧
      (b = true ↔ a.svd = .success ∧ a.field = some .success)
  /-- A worker that waits with nothing pending has fired an event for every request accepted. -/
  settled : σ.phase = .blocked → σ.pendingCalculationData = none →
    σ.fired.length = σ.accepted.length

namespace Inv

/-- While a request is pending, every step leaves it or takes it. -/
theorem kept (h : Inv σ) (hr : σ.pendingCalculationData = some r) (hs : Step σ σ') :
    σ'.pendingCalculationData = some r ∨
      σ'.pendingCalculationData = none ∧ σ'.phase = .calculatingSvd r := by
  have hf : σ.fieldCalculationInProgress = true := by rw [h.flag, hr, Option.isSome_some, Bool.true_or]
  cases hs with
  | call t data hu =>
    left
    unfold State.call
    split_ifs <;> exact hr
  | submit l₁ l₂ c hc hs =>
    rcases submits_cases σ l₁ c l₂ with ⟨-, he⟩ | ⟨hdown, -⟩
    · rw [he]
      exact .inl hr
    · exact absurd (hf.symm.trans hdown) nofun
  | wait hp =>
    rw [wait_of_some hr]
    exact .inr ⟨rfl, rfl⟩
  | svdEnds r' o hp =>
    left
    unfold State.svdEnds
    split_ifs <;> exact hr
  | notifyOne | warn | warned | wake | fieldEnds | clearFlag | report | reportFailed | reported
  | fire | handled => exact .inl hr

theorem answered (h : Inv σ) {id : ℕ} (hid : id < σ.nextId) :
    (σ.accepted.map Request.id).count id + σ.warnings.count (id, alreadyInProgress) =
      if ∃ c ∈ σ.calls, c.undecided = some id then 0 else 1 := by
  have honce := h.once id
  rw [if_pos hid, answers] at honce
  have hmem : 0 < (σ.calls.filterMap AsyncCall.undecided).count id ↔
      ∃ c ∈ σ.calls, c.undecided = some id := by
    rw [List.count_pos_iff, List.mem_filterMap]
  split_ifs with hc
  · have := hmem.mpr hc
    omega
  · have := mt hmem.mp hc
    omega

theorem events (h : Inv σ) {k : ℕ} {b : Bool} (hk : σ.fired[k]? = some (r, b)) :
    σ.accepted[k]? = some r ∧ ∃ a : Attempt F, σ.attempts[k]? = some a ∧ a.request = r ∧
      (b = true ↔ a.svd = .success ∧ a.field = some .success) := by
  have hlt : k < σ.fired.length := (List.getElem?_eq_some_iff.mp hk).1
  constructor
  · rw [h.order, List.append_assoc, List.getElem?_append_left (by simpa using hlt),
      List.getElem?_map, hk]
    rfl
  · have hattempts := congrArg (·[k]?) h.attempts
    simp only [List.getElem?_map] at hattempts
    rw [List.getElem?_append_left hlt, hk, Option.map_eq_some_iff] at hattempts
    obtain ⟨a, ha, heq⟩ := hattempts
    cases heq
    exact ⟨a, ha, rfl, by simp [Attempt.succeeded]⟩

theorem settled (h : Inv σ) (hp : σ.phase = .blocked) (hn : σ.pendingCalculationData = none) :
    σ.fired.length = σ.accepted.length := by
  rw [h.order, hp, hn]
  simp [Phase.request]

end Inv

/-- **The protocol**: in every interleaving, whatever the calculations and the handlers do. -/
theorem Reachable.protocol (h : Reachable σ) : Protocol σ where
  pending hp := by rw [h.inv.flag, hp, Bool.true_or]
  kept _ hr _ hs := h.inv.kept hr hs
  answered _ hid := h.inv.answered hid
  events _ _ _ hk := h.inv.events hk
  settled hp hn := h.inv.settled hp hn

/-- The arguments of the calls. -/
def oneMeasurement : CalculationData ℕ :=
  ⟨fun _ => 2, [⟨⟨![1, 0, 0], .cylindric⟩, ⟨![0, 0, 1], .cylindric⟩⟩], 1, 1⟩

/-- The fit of call 0 has failed, call 1 is in the handlers of its warning, and call 2, accepted, has not
notified the worker, which has answered call 0 and waits again. -/
def waitingState : State ℕ where
  pendingCalculationData := some ⟨2, oneMeasurement⟩
  fieldCalculationInProgress := true
  phase := .blocked
  calls := [⟨.user 0, ⟨2, oneMeasurement⟩, .accepted⟩, ⟨.user 1, ⟨1, oneMeasurement⟩, .warning⟩]
  nextId := 3
  accepted := [⟨0, oneMeasurement⟩, ⟨2, oneMeasurement⟩]
  warnings := [(1, alreadyInProgress)]
  attempts := [⟨⟨0, oneMeasurement⟩, .error "singular", none⟩]
  errors := [(⟨0, oneMeasurement⟩, "Field calculation failed: " ++ "singular")]
  fired := [(⟨0, oneMeasurement⟩, false)]

theorem reachable_waitingState : Reachable waitingState := by
  have h : Reachable (init : State ℕ) := .refl
  -- the first call, up to its calculation
  replace h := h.tail (.call _ (.user 0) oneMeasurement rfl)
  replace h := h.tail (.submit _ [] [] ⟨.user 0, ⟨0, oneMeasurement⟩, .entered⟩ ⟨rfl, nofun⟩ rfl)
  replace h := h.tail (.notifyOne _ [] [] ⟨.user 0, ⟨0, oneMeasurement⟩, .accepted⟩ ⟨rfl, nofun⟩ rfl)
  replace h := h.tail (.wait _ rfl)
  -- the second one is rejected
  replace h := h.tail (.call _ (.user 1) oneMeasurement rfl)
  replace h := h.tail (.submit _ [] [] ⟨.user 1, ⟨1, oneMeasurement⟩, .entered⟩ ⟨rfl, nofun⟩ rfl)
  replace h := h.tail (.warn _ [] [] ⟨.user 1, ⟨1, oneMeasurement⟩, .rejected⟩ ⟨rfl, nofun⟩ rfl)
  -- the calculation fails
  replace h := h.tail (.svdEnds _ ⟨0, oneMeasurement⟩ (.error "singular") rfl)
  replace h := h.tail (.clearFlag _ ⟨0, oneMeasurement⟩ false "singular" rfl)
  replace h := h.tail (.report _ ⟨0, oneMeasurement⟩ "singular" rfl)
  replace h := h.tail (.reported _ ⟨0, oneMeasurement⟩ rfl (List.forall_mem_singleton.mpr nofun))
  replace h := h.tail (.fire _ ⟨0, oneMeasurement⟩ false rfl)
  replace h := h.tail (.handled _ rfl (List.forall_mem_singleton.mpr nofun))
  replace h := h.tail (.wait _ rfl)
  -- the third one comes while the worker waits
  replace h := h.tail (.call _ (.user 0) oneMeasurement rfl)
  exact h.tail (.submit _ [] [⟨.user 1, ⟨1, oneMeasurement⟩, .warning⟩]
    ⟨.user 0, ⟨2, oneMeasurement⟩, .entered⟩ ⟨rfl, nofun⟩ rfl)

/-- `Reachable.protocol` after this run. -/
theorem protocol_waitingState : Protocol waitingState :=
  reachable_waitingState.protocol

end FieldWorker

end TPC.System
