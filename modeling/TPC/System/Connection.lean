import TPC.Lib.Runs

/-!
# The life of the OPC UA worker

`Client::connect_async`, `Client::stop` and `Client::is_running`, called from any threads, with the
worker threads that `connect_async` creates. Each access to `running_`, `stop_requested_` and
`opcua_thread_` is one step, and a call begins with its first step.

* `Call`, `Phase`, `State`: where the calls and the workers stand, and what the callers have been
  told;
* `Action`, **`Step`**;
* `Owner`, `Owned`: one call or one worker at a time has claimed `running_`;
* `KeepsStop`, **`stop_not_lost`**; `KeepsStart`, **`start_not_lost`**; `KeepsClaim`,
  **`running_iff`**: when a stop, a start and the flag can be relied on.
-/

namespace TPC.System.Connection

/-- Where the call of a thread stands. -/
inductive Call
  | idle
  /-- `connect_async` has set `running_`. -/
  | claimed
  /-- It has reset `stop_requested_`. -/
  | cleared
  /-- `initialize_opcua_handlers` has returned an error. -/
  | refused
  | installed
  /-- The thread of worker `w` has been created, and is to be assigned to `opcua_thread_`. -/
  | replacing (w : ℕ)
  /-- The assignment waits for the worker it replaces. -/
  | joining (w old : ℕ)
  /-- `stop` has set `stop_requested_`. `seen`: it began after `is_running` had returned true. -/
  | stopping (seen : Bool)
  deriving DecidableEq, Repr

/-- Where a worker stands. -/
inductive Phase
  | absent
  /-- Before the end of `connectAsync`. -/
  | starting
  /-- At the condition of the loop. -/
  | checking
  /-- In `runIterate`. -/
  | iterating
  /-- After the loop. -/
  | disconnecting
  /-- In a `catch` block, with the handlers of `error_occurred_`. -/
  | failing
  /-- Before `running_ = false`. -/
  | leaving
  | done
  deriving DecidableEq, Repr

namespace Call

/-- Between the claim of `running_` and the creation of a thread. -/
def owns : Call → Bool
  | claimed | cleared | refused | installed => true
  | _ => false

/-- In `connect_async`. -/
def connects : Call → Bool
  | idle | stopping _ => false
  | _ => true

theorem connects_of_owns {c : Call} (h : c.owns = true) : c.connects = true := by
  cases c <;> first | rfl | cases h

end Call

namespace Phase

/-- The worker exists and has not executed `running_ = false`. -/
def unfinished : Phase → Bool
  | absent | done => false
  | _ => true

/-- The worker runs the connection loop, or is about to. -/
def inLoop : Phase → Bool
  | starting | checking | iterating => true
  | _ => false

end Phase

variable {ι : Type}

/-- The members, the calls and the workers, numbered as they were created. The last four components
are the history: what the callers have been told. -/
structure State (ι : Type) where
  running : Bool
  stopRequested : Bool
  /-- The worker that `opcua_thread_` refers to. -/
  opcuaThread : Option ℕ
  spawned : ℕ
  phase : ℕ → Phase
  /-- The stop tokens. -/
  token : ℕ → Bool
  call : ι → Call
  /-- `std::terminate` has been called. -/
  terminated : Bool
  /-- `is_running` has returned true. -/
  seen : Bool
  /-- A `stop` that began after that has returned, and nothing has claimed `running_` since. -/
  stopped : Bool
  /-- A `connect_async` has returned without an error, and no `stop` has begun since. -/
  started : Bool
  /-- A `connect_async` has left by an exception, and `running_` stays set. -/
  claimLost : Bool

/-- Nothing has been called. -/
def State.init : State ι :=
  ⟨false, false, none, 0, fun _ => .absent, fun _ => false, fun _ => .idle, false, false, false,
    false, false⟩

/-- The exit condition of a worker. -/
def State.told (σ : State ι) (w : ℕ) : Bool := σ.token w || σ.stopRequested

/-- The steps of a worker that change nothing but its place. `told` is its exit condition. -/
inductive Moves (told : Bool) : Phase → Phase → Prop
  | connected : Moves told .starting .checking
  /-- `connectAsync`, or a check before it, throws. -/
  | connectThrows : Moves told .starting .failing
  | goOn (h : told = false) : Moves told .checking .iterating
  | leave (h : told = true) : Moves told .checking .disconnecting
  | iterated : Moves told .iterating .checking
  | iterateThrows : Moves told .iterating .failing
  | disconnected : Moves told .disconnecting .leaving
  | disconnectThrows : Moves told .disconnecting .failing
  | handled : Moves told .failing .leaving

/-- What can happen next, in thread `i` or worker `w`. -/
inductive Action (ι : Type)
  | isRunning (i : ι)
  | alreadyRunning (i : ι)
  | claim (i : ι)
  | clear (i : ι)
  | install (i : ι)
  | refuse (i : ι)
  | reset (i : ι)
  | installThrows (i : ι)
  | spawn (i : ι)
  | spawnThrows (i : ι)
  | replace (i : ι)
  | join (i : ι)
  | stop (i : ι)
  | requestStop (i : ι)
  | move (w : ℕ) (p : Phase)
  | finish (w : ℕ)
  | terminate (w : ℕ)

variable [DecidableEq ι]

namespace State

@[simps]
def setCall (σ : State ι) (i : ι) (c : Call) : State ι :=
  { σ with call := Function.update σ.call i c }

@[simps]
def setPhase (σ : State ι) (w : ℕ) (p : Phase) : State ι :=
  { σ with phase := Function.update σ.phase w p }

/-- `request_stop` on a thread object. -/
@[simps]
def requestStop (σ : State ι) (thread : Option ℕ) : State ι :=
  { σ with token := fun w => σ.token w || thread = some w }

/-- The constructor of the temporary `std::jthread`. -/
@[simps]
def spawn (σ : State ι) : State ι :=
  { σ with
    spawned := σ.spawned + 1
    phase := Function.update σ.phase σ.spawned .starting
    token := Function.update σ.token σ.spawned false }

end State

/-- One step of one thread. -/
inductive Does (σ : State ι) : Action ι → State ι → Prop
  | isRunning (i : ι) (h : σ.call i = .idle) : Does σ (.isRunning i) { σ with seen := σ.seen || σ.running }
  /-- `connect_async` returns `false`. -/
  | alreadyRunning (i : ι) (h : σ.call i = .idle) (hr : σ.running = true) :
    Does σ (.alreadyRunning i) { σ with started := true }
  | claim (i : ι) (h : σ.call i = .idle) (hr : σ.running = false) :
    Does σ (.claim i) { σ.setCall i .claimed with running := true, stopped := false }
  | clear (i : ι) (h : σ.call i = .claimed) :
    Does σ (.clear i) { σ.setCall i .cleared with stopRequested := false }
  | install (i : ι) (h : σ.call i = .cleared) : Does σ (.install i) (σ.setCall i .installed)
  | refuse (i : ι) (h : σ.call i = .cleared) : Does σ (.refuse i) (σ.setCall i .refused)
  /-- `connect_async` returns an error. -/
  | reset (i : ι) (h : σ.call i = .refused) :
    Does σ (.reset i) { σ.setCall i .idle with running := false }
  | installThrows (i : ι) (h : σ.call i = .cleared) :
    Does σ (.installThrows i) { σ.setCall i .idle with claimLost := true }
  | spawn (i : ι) (h : σ.call i = .installed) :
    Does σ (.spawn i) (σ.spawn.setCall i (.replacing σ.spawned))
  /-- The constructor of `std::jthread` throws `std::system_error`. -/
  | spawnThrows (i : ι) (h : σ.call i = .installed) :
    Does σ (.spawnThrows i) { σ.setCall i .idle with claimLost := true }
  /-- The assignment to an empty thread object; `connect_async` returns `true`. -/
  | assign (i : ι) (w : ℕ) (h : σ.call i = .replacing w) (ho : σ.opcuaThread = none) :
    Does σ (.replace i) { σ.setCall i .idle with opcuaThread := some w, started := true }
  /-- The assignment to a thread object in use stops its worker, and waits. -/
  | replace (i : ι) (w old : ℕ) (h : σ.call i = .replacing w) (ho : σ.opcuaThread = some old) :
    Does σ (.replace i) ((σ.requestStop (some old)).setCall i (.joining w old))
  /-- The worker waited for has ended; `connect_async` returns `true`. -/
  | join (i : ι) (w old : ℕ) (h : σ.call i = .joining w old) (hd : σ.phase old = .done) :
    Does σ (.join i) { σ.setCall i .idle with opcuaThread := some w, started := true }
  | stop (i : ι) (h : σ.call i = .idle) :
    Does σ (.stop i) { σ.setCall i (.stopping σ.seen) with stopRequested := true, started := false }
  /-- `stop` returns. -/
  | requestStop (i : ι) (seen : Bool) (h : σ.call i = .stopping seen) :
    Does σ (.requestStop i) { (σ.requestStop σ.opcuaThread).setCall i .idle with
      stopped := σ.stopped || seen }
  | move (w : ℕ) (p : Phase) (h : Moves (σ.told w) (σ.phase w) p) :
    Does σ (.move w p) (σ.setPhase w p)
  | finish (w : ℕ) (h : σ.phase w = .leaving) :
    Does σ (.finish w) { σ.setPhase w .done with running := false }
  /-- A handler throws out of the `catch` block of a `noexcept` function. -/
  | terminate (w : ℕ) (h : σ.phase w = .failing) : Does σ (.terminate w) { σ with terminated := true }

/-- A step of a process that has not been terminated. -/
def Step (σ : State ι) (a : Action ι) (σ' : State ι) : Prop := σ.terminated = false ∧ Does σ a σ'

variable {σ σ' : State ι} {a : Action ι}

theorem Moves.unfinished {told : Bool} {p q : Phase} (h : Moves told p q) :
    p.unfinished = true ∧ q.unfinished = true := by
  cases h <;> exact ⟨rfl, rfl⟩

/-! ## Stop requests -/

/-- No call will reset `stop_requested_`, and it is set or all workers have been stopped one by
one and none is to come. -/
def Stopped (σ : State ι) : Prop :=
  (∀ j, σ.call j ≠ .claimed) ∧ (σ.stopRequested = true ∨
    (∀ j, σ.call j ≠ .cleared ∧ σ.call j ≠ .installed) ∧
      ∀ w, (σ.phase w).unfinished = true → σ.token w = true)

/-- When `stop` returns, no call is about to reset `stop_requested_`; and it is still set, or no
call is about to create a worker and `opcua_thread_` refers to the one that is running. -/
def KeepsStop (σ : State ι) : Action ι → Prop
  | .requestStop i => σ.call i = .stopping true → (∀ j, σ.call j ≠ .claimed) ∧
      (σ.stopRequested = true ∨ (∀ j, σ.call j ≠ .cleared ∧ σ.call j ≠ .installed) ∧
        ∀ w, (σ.phase w).unfinished = true → σ.token w = true ∨ σ.opcuaThread = some w)
  | _ => True

omit [DecidableEq ι] in
theorem Stopped.setPhase (h : Stopped σ) {w : ℕ} {p : Phase} (hw : (σ.phase w).unfinished = true) :
    Stopped (σ.setPhase w p) := by
  obtain ⟨hc, hrest⟩ := h
  refine ⟨hc, hrest.imp_right fun ⟨hq, htoken⟩ => ⟨hq, fun v hv => htoken v ?_⟩⟩
  by_cases hvw : v = w
  · subst hvw
    exact hw
  · simpa [Function.update_of_ne hvw] using hv

omit [DecidableEq ι] in
theorem Stopped.requestStop (h : Stopped σ) (thread : Option ℕ) : Stopped (σ.requestStop thread) :=
  ⟨h.1, h.2.imp_right fun ⟨hq, htoken⟩ => ⟨hq, fun w hw => by simp [htoken w hw]⟩⟩

theorem Stopped.setCall (h : Stopped σ) {i : ι} {c : Call} (hc : c ≠ .claimed)
    (hq : c = .cleared ∨ c = .installed → σ.call i = .cleared ∨ σ.call i = .installed) :
    Stopped (σ.setCall i c) := by
  refine ⟨fun j hj => ?_, h.2.imp_right fun ⟨hquiet, htoken⟩ => ⟨fun j => ?_, htoken⟩⟩
  · by_cases hji : j = i
    · subst hji
      exact hc (by simpa using hj)
    · exact h.1 j (by simpa [Function.update_of_ne hji] using hj)
  · by_cases hji : j = i
    · subst hji
      have hcall : ¬ (c = .cleared ∨ c = .installed) := fun hcq =>
        (hq hcq).elim (hquiet j).1 (hquiet j).2
      simpa [not_or] using hcall
    · simpa [Function.update_of_ne hji] using hquiet j

/-- Nobody but `requestStop` makes the promise, and nobody but `claim` may break it. -/
theorem stopped_step (h : σ.stopped = true → Stopped σ) (hk : KeepsStop σ a) (hs : Does σ a σ') :
    σ'.stopped = true → Stopped σ' := by
  cases hs with
  | isRunning | alreadyRunning | terminate => exact h
  | claim => exact nofun
  | clear i hi => exact fun hst => absurd hi ((h hst).1 i)
  | install i hi => exact fun hst => (h hst).setCall nofun fun _ => .inl hi
  | refuse i | reset i | installThrows i | spawnThrows i | assign i | join i =>
    exact fun hst => (h hst).setCall nofun (by simp)
  | spawn i hi =>
    intro hst
    obtain ⟨hc, hflag | ⟨hq, -⟩⟩ := h hst
    · refine ⟨fun j hj => ?_, .inl hflag⟩
      by_cases hji : j = i
      · subst hji
        simp at hj
      · exact hc j (by simpa [Function.update_of_ne hji] using hj)
    · exact absurd hi (hq i).2
  | replace i w old hi ho =>
    exact fun hst => ((h hst).requestStop (some old)).setCall nofun (by simp)
  | stop i hi =>
    intro hst
    have hcalls := ((h hst).setCall (i := i) (c := .stopping σ.seen) nofun (by simp)).1
    exact ⟨hcalls, .inl rfl⟩
  | requestStop i seen hi =>
    intro hst
    have hold : (∀ j, σ.call j ≠ .claimed) ∧ (σ.stopRequested = true ∨
        (∀ j, σ.call j ≠ .cleared ∧ σ.call j ≠ .installed) ∧
          ∀ w, (σ.phase w).unfinished = true → σ.token w = true ∨ σ.opcuaThread = some w) := by
      rcases Bool.or_eq_true_iff.mp hst with hst | hseen
      · obtain ⟨hc, hrest⟩ := h hst
        exact ⟨hc, hrest.imp_right fun ⟨hq, hw⟩ => ⟨hq, fun w hu => .inl (hw w hu)⟩⟩
      · exact hk (hseen ▸ hi)
    have hstopped : Stopped (σ.requestStop σ.opcuaThread) :=
      ⟨hold.1, hold.2.imp_right fun ⟨hq, hw⟩ => ⟨hq, fun w hu => by simpa using hw w hu⟩⟩
    exact hstopped.setCall nofun (by simp)
  | move w p hm => exact fun hst => (h hst).setPhase hm.unfinished.1
  | finish w hw => exact fun hst => (h hst).setPhase (by rw [hw]; rfl)

theorem stopped_of_reach (h : Runs.Reach Step KeepsStop .init σ) : σ.stopped = true → Stopped σ :=
  h.invariant (I := fun σ => σ.stopped = true → Stopped σ) nofun fun _ _ _ _ hi hk hs =>
    stopped_step hi hk hs.2

/-- **No stop request is lost** in a run in which every `stop` returns as `KeepsStop` says: once it
has returned, the exit condition of every worker is set until `running_` is claimed again. -/
theorem stop_not_lost (h : Runs.Reach Step KeepsStop .init σ) (hs : σ.stopped = true) (w : ℕ)
    (hw : (σ.phase w).unfinished = true) : σ.told w = true := by
  unfold State.told
  rcases (stopped_of_reach h hs).2 with hflag | ⟨-, htoken⟩
  · simp [hflag]
  · simp [htoken w hw]

/-- The client after one `connect_async`. -/
def connected : State Unit :=
  { State.init with
    running := true
    opcuaThread := some 0
    spawned := 1
    phase := Function.update (fun _ => .absent) 0 .starting
    token := Function.update (fun _ => false) 0 false
    started := true }

theorem reach_connected {ok : State Unit → Action Unit → Prop}
    (hok : ∀ σ, ok σ (.claim ()) ∧ ok σ (.clear ()) ∧ ok σ (.install ()) ∧ ok σ (.spawn ()) ∧
      ok σ (.replace ())) : Runs.Reach Step ok .init connected := by
  have h₀ : Runs.Reach Step ok .init (.init : State Unit) := .init
  have h₁ := h₀.step ⟨rfl, .claim () rfl rfl⟩ (hok _).1
  have h₂ := h₁.step ⟨rfl, .clear () rfl⟩ (hok _).2.1
  have h₃ := h₂.step ⟨rfl, .install () rfl⟩ (hok _).2.2.1
  have h₄ := h₃.step ⟨rfl, .spawn () rfl⟩ (hok _).2.2.2.1
  exact h₄.step ⟨rfl, .assign () 0 rfl rfl⟩ (hok _).2.2.2.2

/-- A `connect_async` claims `running_`; another thread sees it and stops the client; then the first
one resets `stop_requested_` and starts its worker. -/
theorem not_forall_stop_not_lost : ¬ ∀ (σ : State Bool) (w : ℕ), Runs.Reachable Step .init σ →
    σ.stopped = true → (σ.phase w).unfinished = true → σ.told w = true := by
  intro h
  have h₀ : Runs.Reachable Step .init (.init : State Bool) := .init
  have h₁ := h₀.then ⟨rfl, .claim false rfl rfl⟩
  have h₂ := h₁.then ⟨rfl, .isRunning true rfl⟩
  have h₃ := h₂.then ⟨rfl, .stop true rfl⟩
  have h₄ := h₃.then ⟨rfl, .requestStop true true rfl⟩
  have h₅ := h₄.then ⟨rfl, .clear false rfl⟩
  have h₆ := h₅.then ⟨rfl, .install false rfl⟩
  have h₇ := h₆.then ⟨rfl, .spawn false rfl⟩
  exact absurd (h _ 0 h₇ rfl rfl) nofun

/-- `stop_not_lost` for a client that is seen running and then stopped. -/
theorem stop_not_lost_stopped : ∃ σ : State Unit, σ.stopped = true ∧
    (σ.phase 0).unfinished = true ∧ σ.told 0 = true := by
  have h₀ : Runs.Reach Step KeepsStop .init connected :=
    reach_connected fun _ => ⟨trivial, trivial, trivial, trivial, trivial⟩
  have h₁ := h₀.step ⟨rfl, .isRunning () rfl⟩ trivial
  have h₂ := h₁.step ⟨rfl, .stop () rfl⟩ trivial
  have h₃ := h₂.step ⟨rfl, .requestStop () true rfl⟩ fun _ => ⟨nofun, .inl rfl⟩
  exact ⟨_, rfl, rfl, stop_not_lost h₃ rfl 0 rfl⟩

/-! ## The claim of `running_` -/

/-- A call that has claimed `running_` for its worker, or a worker that has not given it back. -/
inductive Owner (ι : Type)
  | call (i : ι)
  | worker (w : ℕ)

def State.owns (σ : State ι) : Owner ι → Bool
  | .call i => (σ.call i).owns
  | .worker w => (σ.phase w).unfinished

/-- There is one owner at most, and `running_` is set as long as there is one. -/
structure Owned (σ : State ι) : Prop where
  unique : ∀ o o', σ.owns o = true → σ.owns o' = true → o = o'
  running : ∀ o, σ.owns o = true → σ.running = true
  fresh : ∀ w, σ.spawned ≤ w → σ.phase w = .absent

omit [DecidableEq ι] in
theorem Owned.sub (h : Owned σ) (ho : ∀ o, σ'.owns o = true → σ.owns o = true)
    (hr : σ'.running = σ.running) (hf : ∀ w, σ'.spawned ≤ w → σ'.phase w = .absent) : Owned σ' :=
  ⟨fun o o' h₁ h₂ => h.unique o o' (ho o h₁) (ho o' h₂), fun o h₁ => hr.trans (h.running o (ho o h₁)),
    hf⟩

omit [DecidableEq ι] in
theorem Owned.single (o₀ : Owner ι) (ho : ∀ o, σ.owns o = true → o = o₀) (hr : σ.running = true)
    (hf : ∀ w, σ.spawned ≤ w → σ.phase w = .absent) : Owned σ :=
  ⟨fun o o' h h' => (ho o h).trans (ho o' h').symm, fun _ _ => hr, hf⟩

omit [DecidableEq ι] in
theorem Owned.none (ho : ∀ o, σ.owns o ≠ true) (hf : ∀ w, σ.spawned ≤ w → σ.phase w = .absent) :
    Owned σ :=
  ⟨fun o _ h _ => absurd h (ho o), fun o h => absurd h (ho o), hf⟩

omit [DecidableEq ι] in
/-- When `running_` is not set, nobody owns it. -/
theorem Owned.not_owns (h : Owned σ) (hr : σ.running = false) (o : Owner ι) : σ.owns o ≠ true := by
  intro ho
  rw [h.running o ho] at hr
  cases hr

theorem owns_setCall {i : ι} {c : Call} {o : Owner ι} (h : (σ.setCall i c).owns o = true) :
    (o = .call i ∧ c.owns = true) ∨ (o ≠ .call i ∧ σ.owns o = true) := by
  rcases o with j | w
  · by_cases hj : j = i
    · subst hj
      simp only [State.owns, State.setCall_call, Function.update_self] at h
      exact .inl ⟨rfl, h⟩
    · simp only [State.owns, State.setCall_call, Function.update_of_ne hj] at h
      exact .inr ⟨fun he => hj (Owner.call.inj he), h⟩
  · exact .inr ⟨nofun, h⟩

omit [DecidableEq ι] in
theorem owns_setPhase {w : ℕ} {p : Phase} {o : Owner ι} (h : (σ.setPhase w p).owns o = true) :
    (o = .worker w ∧ p.unfinished = true) ∨ (o ≠ .worker w ∧ σ.owns o = true) := by
  rcases o with j | v
  · exact .inr ⟨nofun, h⟩
  · by_cases hv : v = w
    · subst hv
      simp only [State.owns, State.setPhase_phase, Function.update_self] at h
      exact .inl ⟨rfl, h⟩
    · simp only [State.owns, State.setPhase_phase, Function.update_of_ne hv] at h
      exact .inr ⟨fun he => hv (Owner.worker.inj he), h⟩

omit [DecidableEq ι] in
theorem owns_setPhase_of_owns {w : ℕ} {p : Phase} (hp : p.unfinished = true) {o : Owner ι}
    (h : σ.owns o = true) : (σ.setPhase w p).owns o = true := by
  rcases o with j | v
  · exact h
  · by_cases hv : v = w
    · subst hv
      simpa [State.owns] using hp
    · simpa [State.owns, Function.update_of_ne hv] using h

omit [DecidableEq ι] in
theorem Owned.fresh_setPhase (h : Owned σ) {w : ℕ} {p : Phase} (hw : (σ.phase w).unfinished = true)
    (v : ℕ) (hv : σ.spawned ≤ v) : (σ.setPhase w p).phase v = .absent := by
  have habsent := h.fresh v hv
  have hne : v ≠ w := by
    rintro rfl
    rw [habsent] at hw
    cases hw
  simpa [Function.update_of_ne hne] using habsent

theorem Owned.setCall (h : Owned σ) {i : ι} {c : Call} (hc : c.owns = true → (σ.call i).owns = true) :
    Owned (σ.setCall i c) := by
  refine h.sub (fun o ho => ?_) rfl h.fresh
  rcases owns_setCall ho with ⟨rfl, hcs⟩ | ⟨-, ho⟩
  · exact hc hcs
  · exact ho

omit [DecidableEq ι] in
theorem Owned.congr (h : Owned σ) (hr : σ'.running = σ.running) (hs : σ'.spawned = σ.spawned)
    (hp : σ'.phase = σ.phase) (hc : σ'.call = σ.call) : Owned σ' := by
  refine h.sub (fun o ho => ?_) hr (by rw [hs, hp]; exact h.fresh)
  rcases o with j | w
  · simpa only [State.owns, hc] using ho
  · simpa only [State.owns, hp] using ho

/-- **Every step keeps one owner at most**: a claim makes one when there is none, the creation of a
thread hands the claim to the worker, and the others at most give it up. -/
theorem owned_step (h : Owned σ) (hs : Does σ a σ') : Owned σ' := by
  cases hs with
  | isRunning | alreadyRunning | terminate => exact h.congr rfl rfl rfl rfl
  | claim i hi hr =>
    refine .single (.call i) (fun o ho => ?_) rfl h.fresh
    rcases owns_setCall (σ := σ) (c := .claimed) ho with ⟨rfl, -⟩ | ⟨-, ho⟩
    · rfl
    · exact absurd ho (h.not_owns hr o)
  | clear i hi => exact (h.setCall (c := .cleared) fun _ => by rw [hi]; rfl).congr rfl rfl rfl rfl
  | install i hi => exact h.setCall fun _ => by rw [hi]; rfl
  | refuse i hi => exact h.setCall fun _ => by rw [hi]; rfl
  | reset i hi =>
    have howner : σ.owns (.call i) = true := by simp [State.owns, hi, Call.owns]
    refine .none (fun o ho => ?_) h.fresh
    rcases owns_setCall (σ := σ) (c := .idle) ho with ⟨-, hc⟩ | ⟨hne, ho⟩
    · cases hc
    · exact hne (h.unique o _ ho howner)
  | installThrows i hi | spawnThrows i hi =>
    exact (h.setCall (i := i) (c := .idle) nofun).congr rfl rfl rfl rfl
  | spawn i hi =>
    have howner : σ.owns (.call i) = true := by simp [State.owns, hi, Call.owns]
    refine .single (.worker σ.spawned) (fun o ho => ?_) (h.running _ howner) fun w hw => ?_
    · rcases owns_setCall ho with ⟨-, hc⟩ | ⟨hne, ho⟩
      · cases hc
      · rcases owns_setPhase (σ := σ) ho with ⟨he, -⟩ | ⟨-, ho⟩
        · exact he
        · exact absurd (h.unique o _ ho howner) hne
    · change Function.update σ.phase σ.spawned .starting w = .absent
      rw [Function.update_of_ne (Nat.ne_of_gt hw)]
      exact h.fresh w (Nat.le_of_lt hw)
  | assign i w hi ho => exact (h.setCall (i := i) (c := .idle) nofun).congr rfl rfl rfl rfl
  | replace i w old hi ho =>
    exact (h.setCall (i := i) (c := .joining w old) nofun).congr rfl rfl rfl rfl
  | join i w old hi hd => exact (h.setCall (i := i) (c := .idle) nofun).congr rfl rfl rfl rfl
  | stop i hi => exact (h.setCall (i := i) (c := .stopping σ.seen) nofun).congr rfl rfl rfl rfl
  | requestStop i seen hi => exact (h.setCall (i := i) (c := .idle) nofun).congr rfl rfl rfl rfl
  | move w p hm =>
    refine h.sub (fun o ho => ?_) rfl (h.fresh_setPhase hm.unfinished.1)
    rcases owns_setPhase ho with ⟨rfl, -⟩ | ⟨-, ho⟩
    · exact hm.unfinished.1
    · exact ho
  | finish w hw =>
    have howner : σ.owns (.worker w) = true := by simp [State.owns, hw, Phase.unfinished]
    refine .none (fun o ho => ?_) (h.fresh_setPhase howner)
    rcases owns_setPhase (σ := σ) (p := .done) ho with ⟨-, hp⟩ | ⟨hne, ho⟩
    · cases hp
    · exact hne (h.unique o _ ho howner)

omit [DecidableEq ι] in
theorem owned_init : Owned (.init : State ι) := .none (fun o => by rcases o <;> nofun) fun _ _ => rfl

theorem owned_of_reach {ok : State ι → Action ι → Prop} (h : Runs.Reach Step ok .init σ) : Owned σ :=
  h.invariant owned_init fun _ _ _ _ hi _ hs => owned_step hi hs.2

/-! ## The flag -/

/-- No `connect_async` leaves by an exception. -/
def KeepsClaim (_ : State ι) : Action ι → Prop
  | .installThrows _ | .spawnThrows _ => False
  | _ => True

/-- If `running_` is set then it has an owner, unless the owner has been lost. -/
def Claimed (σ : State ι) : Prop :=
  σ.running = true → σ.claimLost = true ∨ ∃ o, σ.owns o = true

theorem Claimed.setCall (h : Claimed σ) {i : ι} {c : Call}
    (hc : (σ.call i).owns = true → c.owns = true) : Claimed (σ.setCall i c) := by
  intro hr
  rcases h hr with hl | ⟨o, ho⟩
  · exact .inl hl
  · refine .inr ⟨o, ?_⟩
    rcases o with j | w
    · by_cases hj : j = i
      · subst hj
        simpa [State.owns] using hc ho
      · simpa [State.owns, Function.update_of_ne hj] using ho
    · exact ho

omit [DecidableEq ι] in
theorem Claimed.congr (h : Claimed σ) (hr : σ'.running = σ.running) (hl : σ'.claimLost = σ.claimLost)
    (hp : σ'.phase = σ.phase) (hc : σ'.call = σ.call) : Claimed σ' := by
  intro hrun
  rcases h (hr.symm.trans hrun) with h | ⟨o, ho⟩
  · exact .inl (hl.trans h)
  · refine .inr ⟨o, ?_⟩
    rcases o with j | w
    · simpa only [State.owns, hc] using ho
    · simpa only [State.owns, hp] using ho

theorem claimed_step (h : Claimed σ) (hs : Does σ a σ') : Claimed σ' := by
  cases hs with
  | isRunning | alreadyRunning | terminate => exact h.congr rfl rfl rfl rfl
  | claim i hi hr => exact fun _ => .inr ⟨.call i, by simp [State.owns, Call.owns]⟩
  | clear i hi =>
    exact (h.setCall (i := i) (c := .cleared) fun _ => rfl).congr rfl rfl rfl rfl
  | install i hi => exact h.setCall fun _ => rfl
  | refuse i hi => exact h.setCall fun _ => rfl
  | reset i hi => exact nofun
  | installThrows i hi | spawnThrows i hi => exact fun _ => .inl rfl
  | spawn i hi =>
    exact fun _ => .inr ⟨.worker σ.spawned, by simp [State.owns, Phase.unfinished]⟩
  | assign i w hi ho =>
    exact (h.setCall (i := i) (c := .idle) (by rw [hi]; nofun)).congr rfl rfl rfl rfl
  | replace i w old hi ho =>
    exact (h.setCall (i := i) (c := .joining w old) (by rw [hi]; nofun)).congr rfl rfl rfl rfl
  | join i w old hi hd =>
    exact (h.setCall (i := i) (c := .idle) (by rw [hi]; nofun)).congr rfl rfl rfl rfl
  | stop i hi =>
    exact (h.setCall (i := i) (c := .stopping σ.seen) (by rw [hi]; nofun)).congr rfl rfl rfl rfl
  | requestStop i seen hi =>
    exact (h.setCall (i := i) (c := .idle) (by rw [hi]; nofun)).congr rfl rfl rfl rfl
  | move w p hm =>
    intro hr
    exact (h hr).imp_right fun ⟨o, ho⟩ => ⟨o, owns_setPhase_of_owns hm.unfinished.2 ho⟩
  | finish w hw => exact nofun

theorem claimed_of_reach {ok : State ι → Action ι → Prop} (h : Runs.Reach Step ok .init σ) :
    Claimed σ :=
  h.invariant nofun fun _ _ _ _ hi _ hs => claimed_step hi hs.2

theorem claimLost_of_reach (h : Runs.Reach Step KeepsClaim .init σ) : σ.claimLost = false := by
  refine h.invariant (I := fun σ => σ.claimLost = false) rfl fun s a s' _ hi hk hs => ?_
  cases hs.2 with
  | installThrows | spawnThrows => exact hk.elim
  | _ => exact hi

/-- After a lost claim `running_` stays set without an owner. -/
def Lost (σ : State ι) : Prop :=
  σ.claimLost = true → σ.running = true ∧ ∀ o, σ.owns o ≠ true

omit [DecidableEq ι] in
theorem Lost.of_owns (h : Lost σ) {o : Owner ι} (ho : σ.owns o = true) : σ.claimLost = false :=
  Bool.eq_false_of_not_eq_true fun hl => (h hl).2 o ho

omit [DecidableEq ι] in
theorem Lost.sub (h : Lost σ) (ho : ∀ o, σ'.owns o = true → σ.owns o = true)
    (hr : σ'.running = σ.running) (hl : σ'.claimLost = σ.claimLost) : Lost σ' := fun hl' =>
  ⟨hr.trans (h (hl.symm.trans hl')).1, fun o ho' => (h (hl.symm.trans hl')).2 o (ho o ho')⟩

theorem owns_of_owns_setCall {i : ι} {c : Call} (hc : c.owns = false) (o : Owner ι)
    (ho : (σ.setCall i c).owns o = true) : σ.owns o = true ∧ o ≠ .call i := by
  rcases owns_setCall ho with ⟨-, hcs⟩ | ⟨hne, ho⟩
  · rw [hc] at hcs
    cases hcs
  · exact ⟨ho, hne⟩

theorem lost_step (howned : Owned σ) (h : Lost σ) (hs : Does σ a σ') : Lost σ' := by
  -- while a call or a worker owns the claim, none has been lost
  have hcall : ∀ i, (σ.call i).owns = true → σ.claimLost = false := fun i hi => h.of_owns (o := .call i) hi
  have hsub : ∀ i c, c.owns = false → ∀ o, (σ.setCall i c).owns o = true → σ.owns o = true :=
    fun i c hc o ho => (owns_of_owns_setCall hc o ho).1
  cases hs with
  | isRunning | alreadyRunning | terminate => exact h
  | claim i hi hr =>
    intro hl
    exact absurd (h hl).1 (by rw [hr]; nofun)
  | clear i hi | install i hi | refuse i hi | reset i hi | spawn i hi =>
    exact fun hl => absurd hl (by
      change ¬ σ.claimLost = true
      rw [hcall i (by rw [hi]; rfl)]
      nofun)
  | installThrows i hi | spawnThrows i hi =>
    have howner : σ.owns (.call i) = true := by simp [State.owns, hi, Call.owns]
    refine fun _ => ⟨howned.running _ howner, fun o ho => ?_⟩
    obtain ⟨ho, hne⟩ := owns_of_owns_setCall (c := .idle) rfl o ho
    exact hne (howned.unique o _ ho howner)
  | assign i | join i | requestStop i => exact h.sub (hsub i .idle rfl) rfl rfl
  | replace i w old hi ho => exact h.sub (hsub i (.joining w old) rfl) rfl rfl
  | stop i hi => exact h.sub (hsub i (.stopping σ.seen) rfl) rfl rfl
  | move w p hm =>
    refine h.sub (fun o ho => ?_) rfl rfl
    rcases owns_setPhase ho with ⟨rfl, -⟩ | ⟨-, ho⟩
    · exact hm.unfinished.1
    · exact ho
  | finish w hw =>
    intro hl
    exact absurd (h.of_owns (o := .worker w) (by rw [State.owns, hw]; rfl)) (by
      rw [show σ.claimLost = true from hl]
      nofun)

/-- **The flag tells the truth** in a run in which no `connect_async` leaves by an exception: between
calls of `connect_async`, `running_` is set exactly while there is a worker to reset it. Once one has
left by an exception it never does so again. -/
theorem running_iff (hidle : ∀ i, (σ.call i).connects = false) :
    (Runs.Reach Step KeepsClaim .init σ →
        (σ.running = true ↔ ∃ w, (σ.phase w).unfinished = true)) ∧
      (Runs.Reachable Step .init σ → σ.claimLost = true →
        ¬ (σ.running = true ↔ ∃ w, (σ.phase w).unfinished = true)) := by
  refine ⟨fun h => ⟨fun hr => ?_, fun ⟨w, hw⟩ => ?_⟩, fun h hl hiff => ?_⟩
  · rcases claimed_of_reach h hr with hl | ⟨o, ho⟩
    · rw [claimLost_of_reach h] at hl
      cases hl
    · rcases o with i | w
      · exact absurd ((Call.connects_of_owns ho).symm.trans (hidle i)) nofun
      · exact ⟨w, ho⟩
  · exact (owned_of_reach h).running (.worker w) hw
  · have hlost : Lost σ := h.invariant (I := Lost) nofun fun _ _ _ hreach hi _ hs =>
      lost_step (owned_of_reach hreach) hi hs.2
    obtain ⟨hr, hnone⟩ := hlost hl
    obtain ⟨w, hw⟩ := hiff.mp hr
    exact hnone (.worker w) hw

/-- The constructor of `std::jthread` throws: `running_` stays set, and there is no worker. -/
theorem not_forall_running_iff : ¬ ∀ σ : State Unit, Runs.Reachable Step .init σ →
    (∀ i, (σ.call i).connects = false) →
      (σ.running = true ↔ ∃ w, (σ.phase w).unfinished = true) := by
  intro h
  have h₀ : Runs.Reachable Step .init (.init : State Unit) := .init
  have h₁ := h₀.then ⟨rfl, .claim () rfl rfl⟩
  have h₂ := h₁.then ⟨rfl, .clear () rfl⟩
  have h₃ := h₂.then ⟨rfl, .install () rfl⟩
  have h₄ := h₃.then ⟨rfl, .spawnThrows () rfl⟩
  obtain ⟨w, hw⟩ := (h _ h₄ fun _ => rfl).mp rfl
  cases hw

/-- `running_iff` for a client that has been started. -/
theorem running_iff_started : ∃ σ : State Unit, σ.running = true ∧
    (σ.running = true ↔ ∃ w, (σ.phase w).unfinished = true) := by
  have h : Runs.Reach Step KeepsClaim .init connected :=
    reach_connected fun _ => ⟨trivial, trivial, trivial, trivial, trivial⟩
  exact ⟨_, rfl, (running_iff fun _ => rfl).1 h⟩

/-! ## Start requests -/

/-- `connect_async` finds `running_` set only by a worker that has not been told to stop, and no
worker throws before it has been told to stop. -/
def KeepsStart (σ : State ι) : Action ι → Prop
  | .alreadyRunning _ => σ.stopRequested = false ∧ σ.claimLost = false
  | .move _ p => p = .failing → σ.stopRequested = true
  | _ => True

/-- What a call of the only caller knows. -/
def CallOk (σ : State ι) : Call → Prop
  | .stopping _ => σ.stopRequested = true
  | .cleared | .refused | .installed => σ.stopRequested = false
  | .replacing w =>
    σ.stopRequested = false ∧ (σ.phase w).unfinished = true ∧ σ.opcuaThread ≠ some w
  | .joining w _ => σ.stopRequested = false ∧ (σ.phase w).unfinished = true
  | .idle | .claimed => True

/-- One thread calls: until it stops the client, a worker that exists stays in its loop. -/
structure Sequential (σ : State Unit) : Prop where
  current : ∀ w, σ.opcuaThread = some w → w < σ.spawned
  calm : σ.stopRequested = false → ∀ w, (σ.phase w).unfinished = true →
    (σ.phase w).inLoop = true ∧ σ.token w = false
  call : CallOk σ (σ.call ())
  started : σ.started = true → σ.stopRequested = false ∧ ∃ w, (σ.phase w).unfinished = true

omit [DecidableEq ι] in
/-- Once a stop is requested, only `stop` itself can rely on the flag. -/
theorem CallOk.of_stopRequested {σ' : State ι} {c : Call} (h : CallOk σ c)
    (hs : σ.stopRequested = true) (hs' : σ'.stopRequested = true) : CallOk σ' c := by
  cases c with
  | idle | claimed => trivial
  | stopping seen => exact hs'
  | cleared | refused | installed => exact absurd (hs.symm.trans h) nofun
  | replacing w | joining w old => exact absurd (hs.symm.trans h.1) nofun

omit [DecidableEq ι] in
theorem CallOk.setPhase {c : Call} {w : ℕ} {p : Phase} (h : CallOk σ c)
    (hu : ∀ v, (σ.phase v).unfinished = true → ((σ.setPhase w p).phase v).unfinished = true) :
    CallOk (σ.setPhase w p) c := by
  cases c with
  | replacing v =>
    obtain ⟨hf, hv, hne⟩ := h
    exact ⟨hf, hu v hv, hne⟩
  | joining v old =>
    obtain ⟨hf, hv⟩ := h
    exact ⟨hf, hu v hv⟩
  | _ => exact h

omit [DecidableEq ι] in
theorem Owned.lt_spawned (h : Owned σ) {w : ℕ} (hw : (σ.phase w).unfinished = true) :
    w < σ.spawned := by
  by_contra hge
  rw [h.fresh w (Nat.not_lt.mp hge)] at hw
  cases hw

theorem Moves.inLoop {p q : Phase} (h : Moves false p q) (hp : p.inLoop = true) (hq : q ≠ .failing) :
    q.inLoop = true := by
  cases h with
  | connected | goOn | iterated => rfl
  | connectThrows | iterateThrows => exact absurd rfl hq
  | leave ht => cases ht
  | disconnected | disconnectThrows | handled => cases hp

section Sequential

variable {τ τ' : State Unit} {b : Action Unit}

theorem not_unfinished_of_owns (ho : Owned τ) (hc : (τ.call ()).owns = true) (w : ℕ) :
    (τ.phase w).unfinished ≠ true := by
  intro hw
  cases ho.unique (.call ()) (.worker w) hc hw

theorem sequential_step (ho : Owned τ) (hc : Claimed τ) (h : Sequential τ) (hk : KeepsStart τ b)
    (hs : Does τ b τ') : Sequential τ' := by
  obtain ⟨hcurrent, hcalm, hcall, hstarted⟩ := h
  cases hs with
  | isRunning | terminate => exact ⟨hcurrent, hcalm, hcall, hstarted⟩
  | alreadyRunning i hi hr =>
    obtain ⟨hflag, hlost⟩ := hk
    refine ⟨hcurrent, hcalm, hcall, fun _ => ⟨hflag, ?_⟩⟩
    rcases hc hr with hl | ⟨⟨⟩ | w, howns⟩
    · exact absurd (hlost.symm.trans hl) nofun
    · simp [State.owns, hi, Call.owns] at howns
    · exact ⟨w, howns⟩
  | claim i hi hr =>
    refine ⟨hcurrent, hcalm, by simp [CallOk], fun hst => ?_⟩
    obtain ⟨-, w, hw⟩ := hstarted hst
    exact absurd hw (ho.not_owns hr (.worker w))
  | clear i hi =>
    have hnone := not_unfinished_of_owns ho (by rw [hi]; rfl)
    refine ⟨hcurrent, fun _ w hw => absurd hw (hnone w), by simp [CallOk], fun hst => ?_⟩
    obtain ⟨-, w, hw⟩ := hstarted hst
    exact absurd hw (hnone w)
  | install i hi | refuse i hi =>
    rw [hi] at hcall
    exact ⟨hcurrent, hcalm, by simpa [CallOk] using hcall, hstarted⟩
  | reset | installThrows | spawnThrows =>
    exact ⟨hcurrent, hcalm, by simp [CallOk], hstarted⟩
  | spawn i hi =>
    rw [hi] at hcall
    have hne : τ.opcuaThread ≠ some τ.spawned := fun he => lt_irrefl _ (hcurrent _ he)
    refine ⟨fun w hw => Nat.lt_succ_of_lt (hcurrent w hw), fun _ w hw => ?_, ?_, fun _ => ?_⟩
    · by_cases hws : w = τ.spawned
      · subst hws
        simp [Phase.inLoop]
      · simp only [State.setCall_phase, State.spawn_phase, State.setCall_token, State.spawn_token,
          Function.update_of_ne hws] at hw ⊢
        exact hcalm hcall w hw
    · simpa [CallOk, Phase.unfinished] using ⟨hcall, hne⟩
    · exact ⟨hcall, τ.spawned, by simp [Phase.unfinished]⟩
  | assign i w hi hnone =>
    rw [hi] at hcall
    obtain ⟨hflag, hw, -⟩ := hcall
    refine ⟨fun v hv => ?_, hcalm, by simp [CallOk], fun _ => ⟨hflag, w, hw⟩⟩
    cases hv
    exact ho.lt_spawned hw
  | replace i w old hi hold =>
    rw [hi] at hcall
    obtain ⟨hflag, hw, hne⟩ := hcall
    refine ⟨hcurrent, fun hf v hv => ?_, by simpa [CallOk] using ⟨hflag, hw⟩, hstarted⟩
    obtain ⟨hloop, htoken⟩ := hcalm hf v hv
    have hvw : v = w := Owner.worker.inj (ho.unique (.worker v) (.worker w) hv hw)
    have hvo : old ≠ v := fun he => hne (by rw [hold, he, hvw])
    exact ⟨hloop, by simp [htoken, hvo]⟩
  | join i w old hi hd =>
    rw [hi] at hcall
    obtain ⟨hflag, hw⟩ := hcall
    refine ⟨fun v hv => ?_, hcalm, by simp [CallOk], fun _ => ⟨hflag, w, hw⟩⟩
    cases hv
    exact ho.lt_spawned hw
  | stop i hi => exact ⟨hcurrent, nofun, by simp [CallOk], nofun⟩
  | requestStop i seen hi =>
    rw [hi] at hcall
    have hflag : τ.stopRequested = true := hcall
    refine ⟨hcurrent, fun hf => absurd (hflag.symm.trans hf) nofun, by simp [CallOk], fun hst => ?_⟩
    exact absurd (hflag.symm.trans (hstarted hst).1) nofun
  | move w p hm =>
    have hunfinished : ∀ v, (τ.phase v).unfinished = true →
        ((τ.setPhase w p).phase v).unfinished = true := fun v hv =>
      owns_setPhase_of_owns (o := .worker v) hm.unfinished.2 hv
    refine ⟨hcurrent, fun hf v hv => ?_, hcall.setPhase hunfinished, fun hst => ?_⟩
    · by_cases hvw : v = w
      · subst hvw
        obtain ⟨hloop, htoken⟩ := hcalm hf v hm.unfinished.1
        have htold : τ.told v = false := by
          simp only [State.told, htoken, Bool.false_or]
          exact hf
        rw [htold] at hm
        refine ⟨?_, htoken⟩
        simpa using hm.inLoop hloop fun hp => absurd ((hk hp).symm.trans hf) nofun
      · simp only [State.setPhase_phase, Function.update_of_ne hvw] at hv ⊢
        exact hcalm hf v hv
    · obtain ⟨hf, v, hv⟩ := hstarted hst
      exact ⟨hf, v, hunfinished v hv⟩
  | finish w hw =>
    have hflag : τ.stopRequested = true := by
      by_contra hf
      have := (hcalm (Bool.eq_false_of_not_eq_true hf) w (by rw [hw]; rfl)).1
      rw [hw] at this
      cases this
    refine ⟨hcurrent, fun hf => absurd (hflag.symm.trans hf) nofun,
      hcall.of_stopRequested hflag hflag, fun hst => ?_⟩
    exact absurd (hflag.symm.trans (hstarted hst).1) nofun

/-- **No start request is lost** in a run of one caller whose steps meet `KeepsStart`: from the return
of a `connect_async` without an error to the next `stop`, a worker runs the connection loop or is
about to, and has not been told to stop. -/
theorem start_not_lost (h : Runs.Reach Step KeepsStart .init τ) (hs : τ.started = true) :
    ∃ w, (τ.phase w).inLoop = true ∧ τ.told w = false := by
  have hseq : Sequential τ := h.invariant ⟨nofun, nofun, trivial, nofun⟩
    fun _ _ _ hr hi hk hs => sequential_step (owned_of_reach hr) (claimed_of_reach hr) hi hk hs.2
  obtain ⟨hf, w, hw⟩ := hseq.started hs
  obtain ⟨hloop, htoken⟩ := hseq.calm hf w hw
  exact ⟨w, hloop, by simp [State.told, htoken, hf]⟩

end Sequential

/-- The client is started, stopped, and started again before its worker has noticed. -/
theorem not_forall_start_not_lost : ¬ ∀ σ : State Unit, Runs.Reachable Step .init σ →
    σ.started = true → ∃ w, (σ.phase w).inLoop = true ∧ σ.told w = false := by
  intro h
  have h₀ : Runs.Reachable Step .init connected :=
    reach_connected fun _ => ⟨trivial, trivial, trivial, trivial, trivial⟩
  have h₁ := h₀.then ⟨rfl, .stop () rfl⟩
  have h₂ := h₁.then ⟨rfl, .requestStop () false rfl⟩
  have h₃ := h₂.then ⟨rfl, .alreadyRunning () rfl rfl⟩
  obtain ⟨w, -, htold⟩ := h _ h₃ rfl
  simp [State.told] at htold

/-- `start_not_lost` for a client that has been started. -/
theorem start_not_lost_started : ∃ σ : State Unit, σ.started = true ∧
    ∃ w, (σ.phase w).inLoop = true ∧ σ.told w = false := by
  have h : Runs.Reach Step KeepsStart .init connected :=
    reach_connected fun _ => ⟨trivial, trivial, trivial, trivial, trivial⟩
  exact ⟨_, rfl, start_not_lost h rfl⟩

end TPC.System.Connection
