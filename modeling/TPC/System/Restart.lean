import TPC.System.Connection
import TPC.System.Poller

/-!
# Restarts from any thread

`TPC::start_async`, `TPC::stop_async` and `TPC::start_polling_async`, called from any threads: also
from the handlers that the polling workers and the OPC UA workers run.

* `Thread`, `State`: the workers of `Connection` and `Poller` are threads that may call;
* `mayCall`, `allows`, **`Step`**: the steps of both, each thread doing one thing at a time;
* `joinsItself`: a thread waits for its own end;
* `connects_opcua`: a handler of an OPC UA worker never replaces a worker;
* **`not_joinsItself`**: no thread joins itself, unless a handler of a polling worker starts polling
  after that worker has been asked to stop.
-/

namespace TPC.System

namespace Connection

/-- The worker runs handlers: of the connection and of the session, or of `error_occurred_`. -/
def Phase.runsHandlers : Phase → Bool
  | starting | iterating | disconnecting | failing => true
  | absent | checking | leaving | done => false

theorem Phase.unfinished_of_runsHandlers {p : Phase} (h : p.runsHandlers = true) :
    p.unfinished = true := by
  cases p <;> first | rfl | cases h

variable {ι : Type} [DecidableEq ι] {σ σ' : State ι} {a : Action ι}

theorem connects_setCall {i j : ι} {c : Call} (h : ((σ.setCall j c).call i).connects = true) :
    (i = j ∧ c.connects = true) ∨ (σ.call i).connects = true := by
  by_cases hij : i = j
  · subst hij
    exact .inl ⟨rfl, by simpa using h⟩
  · exact .inr (by simpa [Function.update_of_ne hij] using h)

/-- A `connect_async` that goes on after its first step has made the claim. -/
theorem Does.connects (hs : Does σ a σ') {i : ι} (h : (σ'.call i).connects = true) :
    a = .claim i ∨ (σ.call i).connects = true := by
  -- a call that goes on, and was in `connect_async` before
  have hgoes : ∀ {j c}, (σ.call j).connects = true → ((σ.setCall j c).call i).connects = true →
      (σ.call i).connects = true := by
    intro j c hj hi
    rcases connects_setCall hi with ⟨rfl, -⟩ | hi
    · exact hj
    · exact hi
  -- a call that is in `connect_async` no longer, or never was
  have hleaves : ∀ {j c}, c.connects = false → ((σ.setCall j c).call i).connects = true →
      (σ.call i).connects = true := by
    intro j c hc hi
    rcases connects_setCall hi with ⟨-, hct⟩ | hi
    · rw [hc] at hct
      cases hct
    · exact hi
  cases hs with
  | claim j hj hr =>
    rcases connects_setCall (σ := σ) (c := .claimed) h with ⟨rfl, -⟩ | h
    · exact .inl rfl
    · exact .inr h
  | clear j hj => exact .inr (hgoes (c := .cleared) (by rw [hj]; rfl) h)
  | install j hj | refuse j hj | replace j w old hj ho => exact .inr (hgoes (by rw [hj]; rfl) h)
  | spawn j hj => exact .inr (hgoes (c := .replacing σ.spawned) (by rw [hj]; rfl) h)
  | reset j | installThrows j | spawnThrows j | assign j | join j | requestStop j =>
    exact .inr (hleaves (c := .idle) rfl h)
  | stop j hj => exact .inr (hleaves (c := .stopping σ.seen) rfl h)
  | isRunning | alreadyRunning | move | finish | terminate => exact .inr h

end Connection

namespace Poller

variable {ι : Type} [DecidableEq ι] {σ σ' : State ι} {a : Action ι}

theorem waitsFor_setCall {i j : ι} {c : Call} {w : ℕ}
    (h : ((σ.setCall j c).call i).waitsFor = some w) :
    (i = j ∧ c.waitsFor = some w) ∨ (σ.call i).waitsFor = some w := by
  by_cases hij : i = j
  · subst hij
    exact .inl ⟨rfl, by simpa using h⟩
  · exact .inr (by simpa [Function.update_of_ne hij] using h)

omit [DecidableEq ι] in
theorem start_eq_some {n w : ℕ} (h : (σ.start n).1 = some w) :
    σ.pollingWorker = some w ∧ σ.token w = true := by
  unfold State.start at h
  split_ifs at h with hk
  have hw : σ.pollingWorker = some w := h
  refine ⟨hw, ?_⟩
  simpa [State.keepsWorker, hw] using hk

omit [DecidableEq ι] in
@[simp] theorem start_call (n : ℕ) : (σ.start n).2.call = σ.call := by
  unfold State.start
  split_ifs <;> rfl

theorem Step.waitsFor (hs : Step σ a σ') {i : ι} {w : ℕ} (h : (σ'.call i).waitsFor = some w) :
    (a = .start i ∧ σ.pollingWorker = some w ∧ σ.token w = true) ∨ (σ.call i).waitsFor = some w := by
  cases hs with
  | start j n hj =>
    rcases waitsFor_setCall h with ⟨rfl, hc⟩ | h
    · exact .inl ⟨rfl, start_eq_some hc⟩
    · exact .inr (by simpa using h)
  | destroy j old hj =>
    rcases waitsFor_setCall h with ⟨rfl, hc⟩ | h
    · rw [hj]
      exact .inr hc
    · exact .inr h
  | callStart j | callStop j | notify j | join j =>
    rcases waitsFor_setCall h with ⟨-, hc⟩ | h
    · cases hc
    · exact .inr h
  | stop j hj =>
    rcases waitsFor_setCall h with ⟨-, hc⟩ | h
    · cases hc
    · exact .inr h
  | lock v hv => exact .inr (by simpa using h)
  | poll | exit | polled | wake => exact .inr h

end Poller

namespace Restart

/-- The threads that can call. -/
inductive Thread
  | user (n : ℕ)
  /-- Polling worker `k`. -/
  | poller (k : ℕ)
  /-- OPC UA worker `w`. -/
  | opcua (w : ℕ)
  deriving DecidableEq, Repr

/-- Both parts. `stop_async` first stops the polling, then the client: `halfStopped` holds of the
threads in between. -/
structure State where
  connection : Connection.State Thread
  polling : Poller.State Thread
  halfStopped : Thread → Bool

namespace State

def init : State := ⟨.init, .init, fun _ => false⟩

variable (σ : State)

/-- The thread is in none of the calls. -/
def free (t : Thread) : Prop :=
  σ.connection.call t = .idle ∧ σ.polling.call t = .idle ∧ σ.halfStopped t = false

/-- The thread runs code of the user. -/
def runsHandlers : Thread → Prop
  | .user _ => True
  | .poller k => σ.polling.phase k = .polling
  | .opcua w => (σ.connection.phase w).runsHandlers = true

/-- The thread may begin a call. -/
def mayCall (t : Thread) : Prop := σ.runsHandlers t ∧ σ.free t

/-- The thread waits for its own end, in the destructor of the replaced thread object or in the
assignment to `opcua_thread_`. -/
def joinsItself : Thread → Prop
  | .user _ => False
  | .poller k => σ.polling.call (.poller k) = .joining k
  | .opcua w => ∃ v, σ.connection.call (.opcua w) = .joining v w

end State

/-- A step of one of the parts. -/
inductive Action
  | connection (a : Connection.Action Thread)
  | polling (a : Poller.Action Thread)

/-- A call begins in the code of the user; a worker goes on when its handlers have returned. -/
def State.allows (σ : State) : Action → Prop
  | .connection (.isRunning t) | .connection (.alreadyRunning t) | .connection (.claim t) => σ.mayCall t
  | .connection (.stop t) => σ.halfStopped t = true
  | .connection (.move w _) | .connection (.finish w) | .connection (.terminate w) => σ.free (.opcua w)
  | .connection _ => True
  | .polling (.callStart t _) | .polling (.callStop t) => σ.mayCall t
  | .polling (.check k) | .polling (.polled k) | .polling (.lock k) | .polling (.wake k) =>
    σ.free (.poller k)
  | .polling _ => True

/-- The threads between the two parts of `stop_async`. -/
def Action.halfStopped (h : Thread → Bool) : Action → Thread → Bool
  | .polling (.stop t) => Function.update h t true
  | .connection (.stop t) => Function.update h t false
  | _ => h

/-- One step of one thread, in a process that has not been terminated. -/
inductive Step (σ : State) : Action → State → Prop
  | connection {a : Connection.Action Thread} {τ : Connection.State Thread}
    (hs : Connection.Step σ.connection a τ) (ha : σ.allows (.connection a)) :
    Step σ (.connection a) ⟨τ, σ.polling, (Action.connection a).halfStopped σ.halfStopped⟩
  | polling {a : Poller.Action Thread} {τ : Poller.State Thread} (hs : Poller.Step σ.polling a τ)
    (ht : σ.connection.terminated = false) (ha : σ.allows (.polling a)) :
    Step σ (.polling a) ⟨σ.connection, τ, (Action.polling a).halfStopped σ.halfStopped⟩

variable {σ σ' : State} {ok : State → Action → Prop}

theorem connection_of_reach (h : Runs.Reach Step ok .init σ) :
    Runs.Reachable Connection.Step .init σ.connection :=
  h.map State.connection fun _ _ _ _ hs => by
    cases hs with
    | connection hs ha => exact .inr ⟨_, trivial, hs⟩
    | polling => exact .inl rfl

/-! ## The OPC UA workers -/

/-- **A handler of an OPC UA worker never replaces a worker**: as long as the worker is there to run
it, `running_` is set, and `connect_async` returns `false`. -/
theorem connects_opcua (h : Runs.Reach Step ok .init σ) (w : ℕ) :
    (σ.connection.call (.opcua w)).connects = false := by
  refine h.invariant (I := fun σ => (σ.connection.call (.opcua w)).connects = false) rfl
    fun s a s' hr hi _ hs => ?_
  cases hs with
  | polling => exact hi
  | connection hs ha =>
    refine Bool.eq_false_of_not_eq_true fun hc => ?_
    rcases hs.2.connects hc with rfl | hold
    · -- the claim finds `running_` reset, but the worker is unfinished
      have hunfinished := Connection.Phase.unfinished_of_runsHandlers ha.1
      have hrunning := (Connection.owned_of_reach (connection_of_reach hr)).running (.worker w)
        hunfinished
      cases hs.2 with
      | claim _ _ hfree =>
        rw [hfree] at hrunning
        cases hrunning
    · rw [hi] at hold
      cases hold

/-! ## The polling workers -/

/-- A `start_polling_async` from a handler of a polling worker does not find that worker in
`polling_worker_` with a stop request. -/
def KeepsJoin (σ : State) : Action → Prop
  | .polling (.start (.poller k)) =>
    ¬ (σ.polling.pollingWorker = some k ∧ σ.polling.token k = true)
  | _ => True

theorem waitsFor_poller (h : Runs.Reach Step KeepsJoin .init σ) (k : ℕ) :
    (σ.polling.call (.poller k)).waitsFor ≠ some k := by
  refine h.invariant (I := fun σ => (σ.polling.call (.poller k)).waitsFor ≠ some k) nofun
    fun s a s' _ hi hk hs => ?_
  cases hs with
  | connection => exact hi
  | polling hs ht ha =>
    intro hw
    rcases hs.waitsFor hw with ⟨rfl, hself⟩ | hold
    · exact hk hself
    · exact hi hold

/-- **No thread joins itself** in a run whose restarts meet `KeepsJoin`. -/
theorem not_joinsItself (h : Runs.Reach Step KeepsJoin .init σ) (t : Thread) : ¬ σ.joinsItself t := by
  rcases t with n | k | w
  · exact id
  · intro hself
    have hcall : σ.polling.call (.poller k) = .joining k := hself
    exact waitsFor_poller h k (by rw [hcall]; rfl)
  · rintro ⟨v, hself⟩
    have hcall := connects_opcua h w
    rw [hself] at hcall
    cases hcall

/-- A restart that does not meet `KeepsJoin` goes straight on to join its own thread. -/
theorem joinsItself_of_not_keepsJoin {a : Action} (hs : Step σ a σ') (hk : ¬ KeepsJoin σ a) :
    ∃ (k : ℕ) (σ'' : State), Step σ' (.polling (.notify (.poller k))) σ'' ∧
      σ''.joinsItself (.poller k) := by
  rcases σ' with ⟨_, _, _⟩
  cases hs with
  | connection => exact absurd trivial hk
  | polling hs ht ha =>
    cases hs with
    | start t n hi =>
      cases t with
      | user | opcua => exact absurd trivial hk
      | poller k =>
        obtain ⟨hw, htoken⟩ := not_not.mp hk
        have hmoved : (σ.polling.start n).1 = some k := by
          rw [Poller.State.start, if_neg (by simp [Poller.State.keepsWorker, hw, htoken])]
          exact hw
        refine ⟨k, _, .polling (a := .notify (.poller k)) (.destroy _ k ?_) ht trivial, ?_⟩
        · simp [hmoved]
        · simp [State.joinsItself]
    | _ => exact absurd trivial hk

/-- A handler of the polling worker calls `stop_async`, and then `start_polling_async`. -/
theorem not_forall_not_joinsItself : ¬ ∀ (σ : State) (t : Thread), Runs.Reachable Step .init σ →
    ¬ σ.joinsItself t := by
  intro h
  have h₀ : Runs.Reachable Step .init State.init := .init
  have h₁ := h₀.then (.polling (a := .callStart (.user 0) 50) (.callStart _ _ rfl (by decide)) rfl
    ⟨trivial, rfl, rfl, rfl⟩)
  have h₂ := h₁.then (.polling (a := .start (.user 0)) (.start _ 50 rfl) rfl trivial)
  have h₃ := h₂.then (.polling (a := .notify (.user 0)) (.notify _ rfl) rfl trivial)
  have h₄ := h₃.then (.polling (a := .check 0) (.poll _ rfl rfl) rfl ⟨rfl, rfl, rfl⟩)
  have h₅ := h₄.then (.polling (a := .callStop (.poller 0)) (.callStop _ rfl) rfl ⟨rfl, rfl, rfl, rfl⟩)
  have h₆ := h₅.then (.polling (a := .stop (.poller 0)) (.stop _ rfl) rfl trivial)
  have h₇ := h₆.then (.connection (a := .stop (.poller 0)) ⟨rfl, .stop _ rfl⟩ rfl)
  have h₈ := h₇.then (.connection (a := .requestStop (.poller 0)) ⟨rfl, .requestStop _ false rfl⟩ trivial)
  have h₉ := h₈.then (.polling (a := .callStart (.poller 0) 50) (.callStart _ _ rfl (by decide)) rfl
    ⟨rfl, rfl, rfl, rfl⟩)
  have h₁₀ := h₉.then (.polling (a := .start (.poller 0)) (.start _ 50 rfl) rfl trivial)
  have h₁₁ := h₁₀.then (.polling (a := .notify (.poller 0)) (.destroy _ 0 rfl) rfl trivial)
  exact h _ (.poller 0) h₁₁ rfl

/-- `not_joinsItself` for a handler of the polling worker that changes the interval. -/
theorem not_joinsItself_interval : ∃ σ : State, σ.polling.phase 0 = .polling ∧
    σ.polling.call (.poller 0) = .notifying none ∧ ¬ σ.joinsItself (.poller 0) := by
  have h₀ : Runs.Reach Step KeepsJoin .init State.init := .init
  have h₁ := h₀.step (.polling (a := .callStart (.user 0) 50) (.callStart _ _ rfl (by decide)) rfl
    ⟨trivial, rfl, rfl, rfl⟩) trivial
  have h₂ := h₁.step (.polling (a := .start (.user 0)) (.start _ 50 rfl) rfl trivial) trivial
  have h₃ := h₂.step (.polling (a := .notify (.user 0)) (.notify _ rfl) rfl trivial) trivial
  have h₄ := h₃.step (.polling (a := .check 0) (.poll _ rfl rfl) rfl ⟨rfl, rfl, rfl⟩) trivial
  have h₅ := h₄.step (.polling (a := .callStart (.poller 0) 20) (.callStart _ _ rfl (by decide)) rfl
    ⟨rfl, rfl, rfl, rfl⟩) trivial
  have h₆ := h₅.step (.polling (a := .start (.poller 0)) (.start _ 20 rfl) rfl trivial)
    fun hk => absurd hk.2 nofun
  exact ⟨_, rfl, rfl, not_joinsItself h₆ (.poller 0)⟩

end Restart

end TPC.System
