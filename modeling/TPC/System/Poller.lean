import TPC.Core.Machine
import TPC.Lib.Runs

/-!
# The polling workers

`TPC::start_polling_async`, `TPC::stop_async` and `TPC::polling_worker_loop`, called from any threads.
Each critical section of `polling_worker_mutex_` is one step, and so is each thing that happens
outside it.

* `Call`, `Phase`, `State`: where the calls and the workers stand, and the history of the run;
* `start`, `stop`, `lock`: the critical sections; `noteStart`, `noteStop`, `noteWait`: the history;
* **`Step`**: the steps of all threads;
* `Workers`, `Timing`: what every step keeps;
* **`poller_control`**: the last command decides which worker goes on; it decides how long it waits exactly
  when its interval fits the signed count of milliseconds;
* **`polling_overlap`**: who may poll while another worker does.
-/

namespace TPC.System.Poller

/-- Where the call of a thread stands. -/
inductive Call
  | idle
  /-- `start_polling_async`, before its critical section. -/
  | starting (interval : ℕ)
  /-- After it, with the worker that was moved out of `polling_worker_`. -/
  | notifying (stopped : Option ℕ)
  /-- In the destructor of the thread object of that worker. -/
  | joining (old : ℕ)
  /-- `stop_async`, before its critical section. -/
  | stopping
  deriving DecidableEq, Repr

/-- The worker that the call is going to join. -/
def Call.waitsFor : Call → Option ℕ
  | notifying stopped => stopped
  | joining old => some old
  | _ => none

/-- Where a worker stands. -/
inductive Phase
  | absent
  /-- At the condition of the loop. -/
  | checking
  /-- From `get_frame_request` to the end of the handlers of `frame_received_`, or of
  `error_occurred_`. -/
  | polling
  /-- Before its critical section. -/
  | locking
  /-- In `wait_for`, with what it has captured. -/
  | waiting (interval : ℤ) (revision : ℕ)
  | done
  deriving DecidableEq, Repr

/-- The worker exists and its thread has not ended. -/
def Phase.unfinished : Phase → Bool
  | absent | done => false
  | _ => true

variable {ι : Type}

/-- The members, the calls and the workers, numbered as they were created; then the history, which no code
reads or writes: the intervals of the starts and the timed waits, in order, how many starts there were before
the last wait of each worker, and whether the last command was a start. -/
structure State (ι : Type) where
  pollingIntervalMs : ℕ
  pollingIntervalRevision : ℕ
  /-- The worker that `polling_worker_` refers to. -/
  pollingWorker : Option ℕ
  spawned : ℕ
  phase : ℕ → Phase
  /-- The stop tokens. -/
  token : ℕ → Bool
  call : ι → Call
  starts : List ℕ
  /-- The interval of each wait, and the number of starts before it. -/
  waits : List (ℤ × ℕ)
  since : ℕ → ℕ
  started : Bool

def State.init : State ι :=
  ⟨0, 0, none, 0, fun _ => .absent, fun _ => false, fun _ => .idle, [], [], fun _ => 0, false⟩

/-- The wake-up predicate of a wait that has captured `revision`. -/
def State.wakes (σ : State ι) (revision : ℕ) : Prop := σ.pollingIntervalRevision ≠ revision

/-- `std::chrono::milliseconds{interval}`: the count is signed. -/
def milliseconds (interval : ℕ) : ℤ := toIndex interval

theorem milliseconds_of_le {n : ℕ} (h : n ≤ indexMax) : milliseconds n = n := toIndex_of_le h

namespace State

/-- The new interval and revision. -/
@[simps]
def setInterval (σ : State ι) (interval : ℕ) : State ι :=
  { σ with
    pollingIntervalMs := interval
    pollingIntervalRevision := wrap (σ.pollingIntervalRevision + 1) }

/-- A new worker in `polling_worker_`. -/
@[simps]
def spawn (σ : State ι) : State ι :=
  { σ with
    pollingWorker := some σ.spawned
    spawned := σ.spawned + 1
    phase := Function.update σ.phase σ.spawned .checking
    token := Function.update σ.token σ.spawned false }

/-- `joinable` and not asked to stop. -/
def keepsWorker (σ : State ι) : Bool :=
  match σ.pollingWorker with
  | some w => !σ.token w
  | none => false

/-- The critical section of `start_polling_async`: a worker that has been asked to stop is moved out,
and is replaced. -/
def start (σ : State ι) (interval : ℕ) : Option ℕ × State ι :=
  if σ.keepsWorker then (none, σ.setInterval interval)
  else (σ.pollingWorker, (σ.setInterval interval).spawn)

/-- `request_stop` on a thread object. -/
@[simps]
def requestStop (σ : State ι) (thread : Option ℕ) : State ι :=
  { σ with token := fun w => σ.token w || thread = some w }

/-- The critical section of `stop_async`. -/
def stop (σ : State ι) : State ι := σ.requestStop σ.pollingWorker

@[simps]
def setPhase (σ : State ι) (w : ℕ) (p : Phase) : State ι :=
  { σ with phase := Function.update σ.phase w p }

/-- The critical section of `polling_worker_loop`, up to the wait: `wait_for` returns at once if the
worker has been asked to stop. -/
def lock (σ : State ι) (w : ℕ) : State ι :=
  if σ.token w then σ.setPhase w .checking
  else σ.setPhase w (.waiting (milliseconds σ.pollingIntervalMs) σ.pollingIntervalRevision)

theorem lock_phase (σ : State ι) (w : ℕ) : (σ.lock w).phase = Function.update σ.phase w
    (if σ.token w then .checking else .waiting (milliseconds σ.pollingIntervalMs) σ.pollingIntervalRevision) := by
  unfold lock
  split_ifs <;> rfl

@[simp] theorem lock_call (σ : State ι) (w : ℕ) : (σ.lock w).call = σ.call := by
  unfold lock
  split_ifs <;> rfl

@[simp] theorem lock_pollingWorker (σ : State ι) (w : ℕ) : (σ.lock w).pollingWorker = σ.pollingWorker := by
  unfold lock
  split_ifs <;> rfl

@[simp] theorem lock_spawned (σ : State ι) (w : ℕ) : (σ.lock w).spawned = σ.spawned := by
  unfold lock
  split_ifs <;> rfl

/-- A start with this interval, in the history. -/
@[simps]
def noteStart (σ : State ι) (interval : ℕ) : State ι :=
  { σ with starts := σ.starts ++ [interval], started := true }

/-- A stop, in the history. -/
@[simps]
def noteStop (σ : State ι) : State ι := { σ with started := false }

/-- The wait that the worker is in, in the history. -/
def noteWait (σ : State ι) (w : ℕ) : State ι :=
  match σ.phase w with
  | .waiting interval _ => { σ with
      waits := σ.waits ++ [(interval, σ.starts.length)]
      since := Function.update σ.since w σ.starts.length }
  | _ => σ

@[simp] theorem noteWait_call (σ : State ι) (w : ℕ) : (σ.noteWait w).call = σ.call := by
  unfold noteWait
  split <;> rfl

@[simp] theorem noteWait_phase (σ : State ι) (w : ℕ) : (σ.noteWait w).phase = σ.phase := by
  unfold noteWait
  split <;> rfl

@[simp] theorem noteWait_token (σ : State ι) (w : ℕ) : (σ.noteWait w).token = σ.token := by
  unfold noteWait
  split <;> rfl

@[simp] theorem noteWait_pollingWorker (σ : State ι) (w : ℕ) : (σ.noteWait w).pollingWorker = σ.pollingWorker := by
  unfold noteWait
  split <;> rfl

@[simp] theorem noteWait_spawned (σ : State ι) (w : ℕ) : (σ.noteWait w).spawned = σ.spawned := by
  unfold noteWait
  split <;> rfl

@[simp] theorem noteWait_started (σ : State ι) (w : ℕ) : (σ.noteWait w).started = σ.started := by
  unfold noteWait
  split <;> rfl

@[simp] theorem noteWait_keepsWorker (σ : State ι) (w : ℕ) : (σ.noteWait w).keepsWorker = σ.keepsWorker := by
  unfold keepsWorker
  rw [noteWait_pollingWorker, noteWait_token]

variable [DecidableEq ι]

@[simps]
def setCall (σ : State ι) (i : ι) (c : Call) : State ι :=
  { σ with call := Function.update σ.call i c }

end State

/-- What can happen next, in thread `i` or worker `w`. -/
inductive Action (ι : Type)
  | callStart (i : ι) (interval : ℕ)
  | start (i : ι)
  | notify (i : ι)
  | join (i : ι)
  | callStop (i : ι)
  | stop (i : ι)
  | check (w : ℕ)
  | polled (w : ℕ)
  | lock (w : ℕ)
  | wake (w : ℕ)

variable [DecidableEq ι]

/-- One step of one thread. -/
inductive Step (σ : State ι) : Action ι → State ι → Prop
  | callStart (i : ι) (interval : ℕ) (h : σ.call i = .idle) (hi : interval ≠ 0) :
    Step σ (.callStart i interval) (σ.setCall i (.starting interval))
  | start (i : ι) (interval : ℕ) (h : σ.call i = .starting interval) :
    Step σ (.start i) (((σ.start interval).2.setCall i (.notifying (σ.start interval).1)).noteStart interval)
  | notify (i : ι) (h : σ.call i = .notifying none) : Step σ (.notify i) (σ.setCall i .idle)
  /-- The destructor asks the worker to stop, and waits. -/
  | destroy (i : ι) (old : ℕ) (h : σ.call i = .notifying (some old)) :
    Step σ (.notify i) ((σ.requestStop (some old)).setCall i (.joining old))
  | join (i : ι) (old : ℕ) (h : σ.call i = .joining old) (hd : σ.phase old = .done) :
    Step σ (.join i) (σ.setCall i .idle)
  | callStop (i : ι) (h : σ.call i = .idle) : Step σ (.callStop i) (σ.setCall i .stopping)
  | stop (i : ι) (h : σ.call i = .stopping) : Step σ (.stop i) (σ.stop.setCall i .idle).noteStop
  | poll (w : ℕ) (h : σ.phase w = .checking) (ht : σ.token w = false) :
    Step σ (.check w) (σ.setPhase w .polling)
  | exit (w : ℕ) (h : σ.phase w = .checking) (ht : σ.token w = true) :
    Step σ (.check w) (σ.setPhase w .done)
  | polled (w : ℕ) (h : σ.phase w = .polling) : Step σ (.polled w) (σ.setPhase w .locking)
  | lock (w : ℕ) (h : σ.phase w = .locking) : Step σ (.lock w) ((σ.lock w).noteWait w)
  /-- The wait is over: the time, the predicate or the stop token. -/
  | wake (w : ℕ) (interval : ℤ) (revision : ℕ) (h : σ.phase w = .waiting interval revision) :
    Step σ (.wake w) (σ.setPhase w .checking)

variable {σ σ' : State ι} {a : Action ι}

/-! ## The workers -/

/-- Who is there. -/
structure Workers (σ : State ι) : Prop where
  fresh : ∀ w, σ.spawned ≤ w → σ.phase w = .absent
  present : ∀ w, σ.pollingWorker = some w → σ.phase w ≠ .absent
  /-- A worker that has not been asked to stop is the one in `polling_worker_`, -/
  current : ∀ w, σ.phase w ≠ .absent → σ.token w = false → σ.pollingWorker = some w
  /-- and has not ended. -/
  stopped : ∀ w, σ.phase w = .done → σ.token w = true
  /-- A call waits for a worker that has been asked to stop. -/
  moved : ∀ i w, (σ.call i).waitsFor = some w → σ.token w = true ∧ σ.phase w ≠ .absent
  /-- A worker that has been replaced and has not ended is waited for. -/
  replaced : ∀ w, (σ.phase w).unfinished = true →
    σ.pollingWorker = some w ∨ ∃ i, (σ.call i).waitsFor = some w

omit [DecidableEq ι] in
theorem workers_init : Workers (.init : State ι) :=
  ⟨fun _ _ => rfl, nofun, fun _ h => absurd rfl h, nofun, nofun, nofun⟩

namespace Workers

omit [DecidableEq ι] in
/-- The history does not matter. -/
theorem noteStart (h : Workers σ) (interval : ℕ) : Workers (σ.noteStart interval) :=
  ⟨h.fresh, h.present, h.current, h.stopped, h.moved, h.replaced⟩

omit [DecidableEq ι] in
theorem noteStop (h : Workers σ) : Workers σ.noteStop :=
  ⟨h.fresh, h.present, h.current, h.stopped, h.moved, h.replaced⟩

omit [DecidableEq ι] in
theorem noteWait (h : Workers σ) (w : ℕ) : Workers (σ.noteWait w) := by
  unfold State.noteWait
  split
  · exact ⟨h.fresh, h.present, h.current, h.stopped, h.moved, h.replaced⟩
  · exact h

theorem setCall (h : Workers σ) {i : ι} {c : Call}
    (hnew : ∀ w, c.waitsFor = some w → σ.token w = true ∧ σ.phase w ≠ .absent)
    (hold : ∀ w, (σ.call i).waitsFor = some w → σ.phase w = .done ∨ c.waitsFor = some w) :
    Workers (σ.setCall i c) where
  fresh := h.fresh
  present := h.present
  current := h.current
  stopped := h.stopped
  moved j w hw := by
    by_cases hj : j = i
    · subst hj
      exact hnew w (by simpa using hw)
    · exact h.moved j w (by simpa [Function.update_of_ne hj] using hw)
  replaced w hw := by
    refine (h.replaced w hw).imp_right fun ⟨j, hj⟩ => ?_
    by_cases hji : j = i
    · subst hji
      rcases hold w hj with hd | hc
      · have hphase : (σ.phase w).unfinished = true := hw
        rw [hd] at hphase
        cases hphase
      · exact ⟨j, by simpa using hc⟩
    · exact ⟨j, by simpa [Function.update_of_ne hji] using hj⟩

omit [DecidableEq ι] in
theorem setPhase (h : Workers σ) {w : ℕ} {p : Phase} (hw : (σ.phase w).unfinished = true)
    (hp : p ≠ .absent) (hd : p = .done → σ.token w = true) : Workers (σ.setPhase w p) where
  fresh v hv := by
    have hne : v ≠ w := by
      rintro rfl
      rw [h.fresh v hv] at hw
      cases hw
    simpa [Function.update_of_ne hne] using h.fresh v hv
  present v hv := by
    by_cases hvw : v = w
    · subst hvw
      simpa using hp
    · simpa [Function.update_of_ne hvw] using h.present v hv
  current v hv ht := by
    refine h.current v ?_ ht
    by_cases hvw : v = w
    · subst hvw
      intro habsent
      rw [habsent] at hw
      cases hw
    · simpa [Function.update_of_ne hvw] using hv
  stopped v hv := by
    by_cases hvw : v = w
    · subst hvw
      exact hd (by simpa using hv)
    · exact h.stopped v (by simpa [Function.update_of_ne hvw] using hv)
  moved i v hv := by
    refine ⟨(h.moved i v hv).1, ?_⟩
    by_cases hvw : v = w
    · subst hvw
      simpa using hp
    · simpa [Function.update_of_ne hvw] using (h.moved i v hv).2
  replaced v hv := by
    refine h.replaced v ?_
    by_cases hvw : v = w
    · exact hvw ▸ hw
    · simpa [Function.update_of_ne hvw] using hv

theorem replace (h : Workers σ) {i : ι} {n : ℕ} (hi : σ.call i = .starting n)
    (hk : σ.keepsWorker = false) :
    Workers ((σ.setInterval n).spawn.setCall i (.notifying σ.pollingWorker)) := by
  have htoken : ∀ w, σ.pollingWorker = some w → σ.token w = true := by
    intro w hw
    simpa [State.keepsWorker, hw] using hk
  have hspawned : σ.phase σ.spawned = .absent := h.fresh _ le_rfl
  have hne : ∀ w, σ.phase w ≠ .absent → w ≠ σ.spawned := by
    rintro w hw rfl
    exact hw hspawned
  constructor
  case fresh =>
    intro w hw
    have hw' : σ.spawned < w := hw
    simpa [Function.update_of_ne (Nat.ne_of_gt hw')] using h.fresh w (Nat.le_of_lt hw')
  case present =>
    intro w hw
    cases hw
    simp
  case current =>
    intro w hw ht
    by_cases hws : w = σ.spawned
    · rw [hws]
      rfl
    · simp only [State.setCall_phase, State.spawn_phase, State.setCall_token, State.spawn_token,
        State.setInterval_phase, State.setInterval_token, State.setInterval_spawned,
        Function.update_of_ne hws] at hw ht
      rw [htoken w (h.current w hw ht)] at ht
      cases ht
  case stopped =>
    intro w hw
    by_cases hws : w = σ.spawned
    · subst hws
      simp at hw
    · simp only [State.setCall_phase, State.spawn_phase, State.setCall_token, State.spawn_token,
        State.setInterval_phase, State.setInterval_token, State.setInterval_spawned,
        Function.update_of_ne hws] at hw ⊢
      exact h.stopped w hw
  case moved =>
    intro j w hw
    have hold : σ.token w = true ∧ σ.phase w ≠ .absent := by
      by_cases hj : j = i
      · subst hj
        have hw' : σ.pollingWorker = some w := by simpa [Call.waitsFor] using hw
        exact ⟨htoken w hw', h.present w hw'⟩
      · exact h.moved j w (by simpa [Function.update_of_ne hj] using hw)
    simpa [Function.update_of_ne (hne w hold.2)] using hold
  case replaced =>
    intro w hw
    by_cases hws : w = σ.spawned
    · rw [hws]
      exact .inl rfl
    · simp only [State.setCall_phase, State.spawn_phase, State.setInterval_phase,
        State.setInterval_spawned, Function.update_of_ne hws] at hw
      rcases h.replaced w hw with hc | ⟨j, hj⟩
      · exact .inr ⟨i, by simpa [Call.waitsFor] using hc⟩
      · have hji : j ≠ i := by
          rintro rfl
          rw [hi] at hj
          cases hj
        exact .inr ⟨j, by simpa [Function.update_of_ne hji] using hj⟩

theorem start (h : Workers σ) {i : ι} {n : ℕ} (hi : σ.call i = .starting n) :
    Workers ((σ.start n).2.setCall i (.notifying (σ.start n).1)) := by
  unfold State.start
  cases hk : σ.keepsWorker with
  | false => exact h.replace hi hk
  | true =>
    have hinterval : Workers (σ.setInterval n) :=
      ⟨h.fresh, h.present, h.current, h.stopped, h.moved, h.replaced⟩
    refine hinterval.setCall nofun fun w hw => ?_
    have hw' : (σ.call i).waitsFor = some w := hw
    rw [hi] at hw'
    cases hw'

omit [DecidableEq ι] in
theorem stop (h : Workers σ) : Workers σ.stop where
  fresh := h.fresh
  present := h.present
  current w hw ht := h.current w hw (Bool.or_eq_false_iff.mp ht).1
  stopped w hw := Bool.or_eq_true_iff.mpr (.inl (h.stopped w hw))
  moved i w hw := ⟨Bool.or_eq_true_iff.mpr (.inl (h.moved i w hw).1), (h.moved i w hw).2⟩
  replaced := h.replaced

omit [DecidableEq ι] in
theorem lock (h : Workers σ) {w : ℕ} (hw : σ.phase w = .locking) : Workers (σ.lock w) := by
  have hu : (σ.phase w).unfinished = true := by
    rw [hw]
    rfl
  unfold State.lock
  split_ifs <;> exact h.setPhase hu nofun nofun

end Workers

omit [DecidableEq ι] in
theorem requestStop_of_token {w : ℕ} (h : σ.token w = true) : σ.requestStop (some w) = σ := by
  have htoken : (fun v => σ.token v || some w = some v) = σ.token := by
    funext v
    by_cases hv : w = v
    · simp [← hv, h]
    · simp [hv]
  unfold State.requestStop
  rw [htoken]

theorem workers_step (h : Workers σ) (hs : Step σ a σ') : Workers σ' := by
  cases hs with
  | callStart i n hi | callStop i hi => exact h.setCall nofun fun w hw => by rw [hi] at hw; cases hw
  | start i n hi => exact (h.start hi).noteStart n
  | notify i hi => exact h.setCall nofun fun w hw => by rw [hi] at hw; cases hw
  | destroy i old hi =>
    have hold := h.moved i old (by rw [hi]; rfl)
    rw [requestStop_of_token hold.1]
    refine h.setCall (fun w hw => ?_) fun w hw => .inr ?_
    · cases hw
      exact hold
    · rw [hi] at hw
      exact hw
  | join i old hi hd =>
    refine h.setCall nofun fun w hw => .inl ?_
    rw [hi] at hw
    cases hw
    exact hd
  | stop i hi =>
    refine (h.stop.setCall (c := .idle) nofun fun w hw => ?_).noteStop
    have hw' : (σ.call i).waitsFor = some w := hw
    rw [hi] at hw'
    cases hw'
  | poll w hw ht | polled w hw | wake w _ _ hw => exact h.setPhase (by rw [hw]; rfl) nofun nofun
  | exit w hw ht => exact h.setPhase (by rw [hw]; rfl) nofun fun _ => ht
  | lock w hw => exact (h.lock hw).noteWait w

theorem workers_of_reach (h : Runs.Reachable Step .init σ) : Workers σ :=
  h.invariant workers_init fun _ _ _ _ hi _ hs => workers_step hi hs

/-! ## The history -/

/-- The last command is a start exactly while the worker in `polling_worker_` goes on. -/
theorem started_step (hw : Workers σ) (h : σ.started = σ.keepsWorker) (hs : Step σ a σ') :
    σ'.started = σ'.keepsWorker := by
  cases hs with
  | callStart | callStop | notify | join | poll | exit | polled | wake => exact h
  | destroy i old hi =>
    rw [requestStop_of_token (hw.moved i old (by rw [hi]; rfl)).1]
    exact h
  | start i n hi =>
    unfold State.start
    split_ifs with hk
    · exact hk.symm
    · simp [State.keepsWorker]
  | stop i hi => cases hp : σ.pollingWorker <;> simp [State.stop, State.keepsWorker, hp]
  | lock w hw' =>
    have hlock : (σ.lock w).started = (σ.lock w).keepsWorker := by
      unfold State.lock
      split_ifs <;> exact h
    rw [State.noteWait_started, State.noteWait_keepsWorker]
    exact hlock

/-- What the workers read and wait for. -/
structure Timing (σ : State ι) : Prop where
  revision : σ.pollingIntervalRevision = wrap σ.starts.length
  interval : σ.starts ≠ [] → σ.starts.getLast? = some σ.pollingIntervalMs
  begun : σ.starts = [] → ∀ w, σ.phase w = .absent
  waiting : ∀ w interval revision, σ.phase w = .waiting interval revision →
    revision = wrap (σ.since w) ∧ σ.since w ≤ σ.starts.length
  waits : ∀ p ∈ σ.waits, ∃ k n, p.2 = k + 1 ∧ σ.starts[k]? = some n ∧ p.1 = milliseconds n

omit [DecidableEq ι] in
theorem timing_init : Timing (.init : State ι) :=
  ⟨rfl, fun h => absurd rfl h, fun _ _ => rfl, nofun, nofun⟩

namespace Timing

omit [DecidableEq ι] in
theorem setPhase (h : Timing σ) {w : ℕ} {p : Phase} (hw : σ.phase w ≠ .absent)
    (hp : ∀ i r, p ≠ .waiting i r) : Timing (σ.setPhase w p) where
  revision := h.revision
  interval := h.interval
  begun hs := absurd (h.begun hs w) hw
  waiting v i r hv := by
    by_cases hvw : v = w
    · subst hvw
      exact absurd (by simpa using hv) (hp i r)
    · exact h.waiting v i r (by simpa [Function.update_of_ne hvw] using hv)
  waits := h.waits

theorem start (h : Timing σ) (n : ℕ) (i : ι) (c : Call) :
    Timing (((σ.start n).2.setCall i c).noteStart n) := by
  have hrevision : wrap (σ.pollingIntervalRevision + 1) = wrap (σ.starts ++ [n]).length := by
    rw [h.revision, wrap, wrap, wrap, Nat.mod_add_mod, List.length_append, List.length_singleton]
  have hle : ∀ w interval revision, σ.phase w = .waiting interval revision →
      revision = wrap (σ.since w) ∧ σ.since w ≤ (σ.starts ++ [n]).length := by
    intro w interval revision hw
    obtain ⟨hr, hk⟩ := h.waiting w interval revision hw
    exact ⟨hr, hk.trans (by simp)⟩
  have hwaits : ∀ p ∈ σ.waits, ∃ k m, p.2 = k + 1 ∧ (σ.starts ++ [n])[k]? = some m ∧ p.1 = milliseconds m := by
    intro p hp
    obtain ⟨k, m, hp₂, hk, hp₁⟩ := h.waits p hp
    have hlt := (List.getElem?_eq_some_iff.mp hk).1
    exact ⟨k, m, hp₂, (List.getElem?_append_left hlt).trans hk, hp₁⟩
  unfold State.start
  split_ifs
  · exact ⟨hrevision, fun _ => by simp, fun hs => absurd hs (by simp), hle, hwaits⟩
  · refine ⟨hrevision, fun _ => by simp, fun hs => absurd hs (by simp), fun w interval revision hwait => ?_, hwaits⟩
    by_cases hws : w = σ.spawned
    · simp [hws] at hwait
    · exact hle w interval revision (by simpa [Function.update_of_ne hws] using hwait)

omit [DecidableEq ι] in
/-- A wait that begins uses the interval of the last start. -/
theorem lock (h : Timing σ) {w : ℕ} (hw : σ.phase w ≠ .absent) : Timing ((σ.lock w).noteWait w) := by
  unfold State.lock
  split_ifs
  · have hchecking := h.setPhase (p := .checking) hw nofun
    simpa [State.noteWait] using hchecking
  have hne : σ.starts ≠ [] := fun hs => hw (h.begun hs w)
  simp only [State.noteWait, State.setPhase_phase, Function.update_self]
  refine ⟨h.revision, h.interval, fun hs => absurd hs hne, fun v interval revision hv => ?_, fun p hp => ?_⟩
  · by_cases hvw : v = w
    · subst hvw
      simp only [State.setPhase_phase, Function.update_self, Phase.waiting.injEq] at hv
      simp [← hv.2, h.revision]
    · simpa [Function.update_of_ne hvw] using
        h.waiting v interval revision (by simpa [Function.update_of_ne hvw] using hv)
  · rcases List.mem_append.mp hp with hp | hp
    · exact h.waits p hp
    · have hlast := h.interval hne
      rw [List.getLast?_eq_getElem?] at hlast
      obtain ⟨h₁, h₂⟩ := Prod.mk.inj (List.mem_singleton.mp hp)
      exact ⟨_, _, h₂.trans (Nat.sub_add_cancel (List.length_pos_of_ne_nil hne)).symm, hlast, h₁⟩

end Timing

theorem timing_step (h : Timing σ) (hs : Step σ a σ') : Timing σ' := by
  cases hs with
  | callStart | callStop | notify | destroy | join | stop =>
    exact ⟨h.revision, h.interval, h.begun, h.waiting, h.waits⟩
  | start i n hi => exact h.start n i _
  | poll w hw | exit w hw | polled w hw | wake w _ _ hw => exact h.setPhase (by rw [hw]; nofun) nofun
  | lock w hw => exact h.lock (by rw [hw]; nofun)

/-! ## What the commands achieve -/

/-- A worker that has not been asked to stop. -/
def State.active (σ : State ι) (w : ℕ) : Prop :=
  (σ.phase w).unfinished = true ∧ σ.token w = false

/-- The commands, in the order of their critical sections, control the workers. -/
structure Controlled (σ : State ι) : Prop where
  one : ∀ v w, σ.active v → σ.active w → v = w
  afterStart : σ.started = true → ∃! w, σ.active w
  afterStop : σ.started = false → ∀ w, ¬ σ.active w
  /-- Each wait has used the interval of the last start before it. -/
  intervals : ∀ p ∈ σ.waits, ∃ k n, p.2 = k + 1 ∧ σ.starts[k]? = some n ∧ p.1 = n
  /-- A wait that was in progress at a start is over. -/
  wakes : ∀ w interval revision, σ.phase w = .waiting interval revision →
    σ.since w < σ.starts.length → σ.wakes revision

/-- No wait has begun after a start, and before the next one, whose interval is above the largest signed
count. -/
def Counts (σ : State ι) : Prop := ∀ p ∈ σ.waits, ∀ k n, p.2 = k + 1 → σ.starts[k]? = some n → n ≤ indexMax

omit [DecidableEq ι] in
theorem Workers.eq_of_active (h : Workers σ) {w : ℕ} (hw : σ.active w) :
    σ.pollingWorker = some w := by
  refine h.current w (fun habsent => ?_) hw.2
  have := hw.1
  rw [habsent] at this
  cases this

omit [DecidableEq ι] in
theorem Workers.existsUnique_active (h : Workers σ) (hk : σ.keepsWorker = true) : ∃! w, σ.active w := by
  unfold State.keepsWorker at hk
  cases hp : σ.pollingWorker with
  | none =>
    rw [hp] at hk
    cases hk
  | some w =>
    rw [hp] at hk
    have htoken : σ.token w = false := by simpa using hk
    refine ⟨w, ⟨?_, htoken⟩, fun v hv => Option.some.inj ((h.eq_of_active hv).symm.trans hp)⟩
    cases hphase : σ.phase w with
    | absent => exact absurd hphase (h.present w hp)
    | done => exact absurd ((h.stopped w hphase).symm.trans htoken) nofun
    | checking | polling | locking | waiting => rfl

omit [DecidableEq ι] in
theorem Workers.not_active (h : Workers σ) (hk : σ.keepsWorker = false) (w : ℕ) : ¬ σ.active w := by
  intro hactive
  have htoken := hactive.2
  rw [State.keepsWorker, h.eq_of_active hactive] at hk
  simp [htoken] at hk

/-- **The last command decides** which worker goes on, and how long it waits, exactly when the intervals that
have been waited for fit the signed count. -/
theorem poller_control (h : Runs.Reachable Step .init σ) (hn : σ.starts.length < 2 ^ 64) :
    Controlled σ ↔ Counts σ := by
  have hw := workers_of_reach h
  have hstarted : σ.started = σ.keepsWorker :=
    (h.invariant (I := fun σ => Workers σ ∧ σ.started = σ.keepsWorker) ⟨workers_init, rfl⟩
      fun _ _ _ _ hi _ hs => ⟨workers_step hi.1 hs, started_step hi.1 hi.2 hs⟩).2
  have ht : Timing σ := h.invariant timing_init fun _ _ _ _ hi _ hs => timing_step hi hs
  constructor
  · intro hc p hp k n hk hkn
    obtain ⟨k', n', hk', hn', hp'⟩ := hc.intervals p hp
    obtain ⟨k₁, n₁, hk₁, hn₁, hp₁⟩ := ht.waits p hp
    obtain rfl : k = k' := by omega
    obtain rfl : k = k₁ := by omega
    cases hkn.symm.trans hn'
    cases hkn.symm.trans hn₁
    exact le_indexMax_of_toIndex (hp'.symm.trans hp₁)
  · intro hcounts
    refine ⟨fun v w hv hw' => ?_, fun hs => hw.existsUnique_active (hstarted.symm.trans hs),
      fun hs => hw.not_active (hstarted.symm.trans hs), fun p hp => ?_, fun w i r hwait hlt => ?_⟩
    · exact Option.some.inj ((hw.eq_of_active hv).symm.trans (hw.eq_of_active hw'))
    · obtain ⟨k, n, hk, hkn, hp₁⟩ := ht.waits p hp
      exact ⟨k, n, hk, hkn, hp₁.trans (toIndex_of_le (hcounts p hp k n hk hkn))⟩
    · obtain ⟨hr, -⟩ := ht.waiting w i r hwait
      unfold State.wakes
      rw [ht.revision, hr, wrap, wrap, Nat.mod_eq_of_lt hn, Nat.mod_eq_of_lt (hlt.trans hn)]
      exact Nat.ne_of_gt hlt

/-- `poller_control` for a worker that is stopped while it waits, and for the one that a second start puts in
its place. -/
theorem poller_control_restarted : ∃ σ : State Unit, σ.phase 0 = .waiting 50 1 ∧ σ.token 0 = true ∧
    σ.phase 1 = .waiting 20 2 ∧ σ.waits = [(50, 1), (20, 2)] ∧ (Controlled σ ↔ Counts σ) := by
  have h₀ : Runs.Reachable Step .init (.init : State Unit) := .init
  have h₁ := (h₀.then (.callStart () 50 rfl (by decide))).then (.start () 50 rfl)
  have h₂ := (h₁.then (.notify () rfl)).then (.poll 0 rfl rfl)
  have h₃ := (h₂.then (.polled 0 rfl)).then (.lock 0 rfl)
  have h₄ := (h₃.then (.callStop () rfl)).then (.stop () rfl)
  have h₅ := (h₄.then (.callStart () 20 rfl (by decide))).then (.start () 20 rfl)
  have h₆ := (h₅.then (.poll 1 rfl rfl)).then (.polled 1 rfl)
  have hlong : milliseconds 50 = 50 := milliseconds_of_le (by decide)
  have hshort : milliseconds 20 = 20 := milliseconds_of_le (by decide)
  refine ⟨_, ?_, rfl, ?_, ?_, poller_control (h₆.then (.lock 1 rfl)) (by decide)⟩
  · exact congrArg (Phase.waiting · 1) hlong
  · exact congrArg (Phase.waiting · 2) hshort
  · exact congrArg₂ (fun a b => [(a, 1), (b, 2)]) hlong hshort

theorem exists_waits {n : ℕ} (hn : n ≠ 0) : ∃ σ : State Unit, Runs.Reachable Step .init σ ∧ σ.starts = [n] ∧
    σ.waits = [(milliseconds n, 1)] := by
  have h₀ : Runs.Reachable Step .init (.init : State Unit) := .init
  have h₁ := (h₀.then (.callStart () n rfl hn)).then (.start () n rfl)
  have h₂ := (h₁.then (.notify () rfl)).then (.poll 0 rfl rfl)
  exact ⟨_, (h₂.then (.polled 0 rfl)).then (.lock 0 rfl), rfl, rfl⟩

/-- The largest interval that a caller can give, `2 ^ 64 - 1`, is waited for as `-1`. -/
theorem not_forall_controlled : ¬ ∀ σ : State Unit, Runs.Reachable Step .init σ → σ.starts.length < 2 ^ 64 →
    Controlled σ := by
  intro h
  obtain ⟨σ, hreach, hstarts, hwaits⟩ := exists_waits (n := sizeMax) (by decide)
  have hc := h σ hreach (by simp [hstarts])
  obtain ⟨k, n, hk, hkn, hn⟩ := hc.intervals _ (hwaits ▸ List.mem_singleton_self _)
  obtain rfl : k = 0 := by omega
  obtain rfl : sizeMax = n := by simpa [hstarts] using hkn
  exact absurd (le_indexMax_of_toIndex hn.symm) (by decide)

/-! ## Simultaneous iterations -/

/-- The worker has been asked to stop, and a start that has replaced it has yet to join it. -/
def State.replaced (σ : State ι) (w : ℕ) : Prop :=
  σ.token w = true ∧ ∃ i, (σ.call i).waitsFor = some w

/-- A worker that has been asked to stop and is not in an iteration. -/
structure Retired (σ : State ι) (w : ℕ) : Prop where
  present : σ.phase w ≠ .absent
  token : σ.token w = true
  phase : σ.phase w ≠ .polling

omit [DecidableEq ι] in
theorem Retired.setPhase {v w : ℕ} {p : Phase} (h : Retired σ w) (ha : p ≠ .absent)
    (hp : v = w → p ≠ .polling) : Retired (σ.setPhase v p) w := by
  by_cases hwv : w = v
  · subst hwv
    exact ⟨by simpa using ha, h.token, by simpa using hp rfl⟩
  · exact ⟨by simpa [Function.update_of_ne hwv] using h.present, h.token, by
      simpa [Function.update_of_ne hwv] using h.phase⟩

omit [DecidableEq ι] in
theorem Retired.of_token {w : ℕ} (h : Retired σ w) (hp : σ'.phase = σ.phase)
    (ht : σ'.token w = true) : Retired σ' w :=
  ⟨by rw [hp]; exact h.present, ht, by rw [hp]; exact h.phase⟩

/-- **A retired worker stays retired.** -/
theorem retired_step (hw : Workers σ) {w : ℕ} (h : Retired σ w) (hs : Step σ a σ') : Retired σ' w := by
  cases hs with
  | callStart | callStop | notify | join => exact h.of_token rfl h.token
  | destroy | stop => exact h.of_token rfl (Bool.or_eq_true_iff.mpr (.inl h.token))
  | start i n hi =>
    have hne : w ≠ σ.spawned := by
      rintro rfl
      exact h.present (hw.fresh _ le_rfl)
    unfold State.start
    split_ifs
    · exact h.of_token rfl h.token
    · exact ⟨by simpa [Function.update_of_ne hne] using h.present, by
        simpa [Function.update_of_ne hne] using h.token, by
        simpa [Function.update_of_ne hne] using h.phase⟩
  | poll v hv ht =>
    refine h.setPhase nofun fun he => ?_
    subst he
    rw [h.token] at ht
    cases ht
  | exit v hv ht | polled v hv | wake v _ _ hv => exact h.setPhase nofun fun _ => nofun
  | lock v hv =>
    have hlock : Retired (σ.lock v) w := by
      unfold State.lock
      split_ifs <;> exact h.setPhase nofun fun _ => nofun
    exact hlock.of_token (State.noteWait_phase _ _) ((congrFun (State.noteWait_token _ _) w).trans hlock.token)

/-- **Simultaneous iterations**: of two workers that poll at the same time one has been replaced, by a
start that has yet to join it; and no replaced worker begins another iteration. -/
theorem polling_overlap (h : Runs.Reachable Step .init σ) :
    (∀ v w, σ.phase v = .polling → σ.phase w = .polling → v ≠ w → σ.replaced v ∨ σ.replaced w) ∧
      ∀ w, σ.replaced w → σ.phase w ≠ .polling → ∀ σ', Runs.Reachable Step σ σ' →
        σ'.phase w ≠ .polling := by
  have hw := workers_of_reach h
  refine ⟨fun v w hv hw' hne => ?_, fun w hr hp σ' hreach => ?_⟩
  · have hreplaced : ∀ u, σ.phase u = .polling → σ.pollingWorker ≠ some u → σ.replaced u := by
      intro u hu hcurrent
      rcases hw.replaced u (by rw [hu]; rfl) with hc | ⟨i, hi⟩
      · exact absurd hc hcurrent
      · exact ⟨(hw.moved i u hi).1, i, hi⟩
    by_cases hc : σ.pollingWorker = some v
    · exact .inr (hreplaced w hw' fun hcw => hne (Option.some.inj (hc.symm.trans hcw)))
    · exact .inl (hreplaced v hv hc)
  · obtain ⟨htoken, i, hi⟩ := hr
    have hretired : Workers σ' ∧ Retired σ' w :=
      hreach.invariant (I := fun σ => Workers σ ∧ Retired σ w) ⟨hw, (hw.moved i w hi).2, htoken, hp⟩
        fun _ _ _ _ hi _ hs => ⟨workers_step hi.1 hs, retired_step hi.1 hi.2 hs⟩
    exact hretired.2.phase

/-- While a worker is in its handlers, polling is stopped and started again: the worker that takes
its place does not wait. -/
theorem exists_two_polling : ∃ σ : State Unit, Runs.Reachable Step .init σ ∧
    σ.phase 0 = .polling ∧ σ.phase 1 = .polling := by
  have h₀ : Runs.Reachable Step .init (.init : State Unit) := .init
  have h₁ := (h₀.then (.callStart () 50 rfl (by decide))).then (.start () 50 rfl)
  have h₂ := (h₁.then (.notify () rfl)).then (.poll 0 rfl rfl)
  have h₃ := (h₂.then (.callStop () rfl)).then (.stop () rfl)
  have h₄ := (h₃.then (.callStart () 50 rfl (by decide))).then (.start () 50 rfl)
  exact ⟨_, h₄.then (.poll 1 rfl rfl), rfl, rfl⟩

/-- The iterations are not serialised. -/
theorem not_forall_polling_eq : ¬ ∀ (σ : State Unit) (v w : ℕ), Runs.Reachable Step .init σ →
    σ.phase v = .polling → σ.phase w = .polling → v = w := by
  intro h
  obtain ⟨σ, hreach, h₀, h₁⟩ := exists_two_polling
  exact absurd (h σ 0 1 hreach h₀ h₁) nofun

/-- `polling_overlap` for two workers that poll at the same time. -/
theorem polling_overlap_restarted : ∃ σ : State Unit, σ.phase 0 = .polling ∧ σ.phase 1 = .polling ∧
    (σ.replaced 0 ∨ σ.replaced 1) := by
  obtain ⟨σ, hreach, h₀, h₁⟩ := exists_two_polling
  exact ⟨σ, h₀, h₁, (polling_overlap hreach).1 0 1 h₀ h₁ nofun⟩

end TPC.System.Poller
