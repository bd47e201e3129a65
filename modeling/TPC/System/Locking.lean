import TPC.Lib.LockOrder

/-!
# The mutexes of the system

Every function of `TPC`, `Client`, `Subscription` and `FrameReceiver` with the mutexes that it takes, the
event handlers that it invokes and the places where it may throw; what it computes is left open. The handlers
are the user's: they are called, and they are also copied and destroyed.

* `TpcEvent`, `ClientEvent`, `SubscriptionEvent`, `Mutex`, `rank`;
* the functions, under their names; `Entry`, `Entry.code`: what the user of a `TPC` may call;
* `Role`: what a thread of the process runs;
* `RunsUserCode`: the mutexes under which code of the user runs; **`mutexes_never_deadlock`**;
* `exists_deadlock`: a handler whose destructor asks for the size of its event.
-/

namespace TPC.System.Locking

open LockOrder

/-- The public event handlers of `TPC`. -/
inductive TpcEvent
  | errorOccurred
  | warningOccurred
  | infoOccurred
  | connectionStateChanged
  | initializationDataReceived
  | frameReceived
  | fieldWasCalculated
  deriving DecidableEq, Repr

/-- Those of `Client`. -/
inductive ClientEvent
  | errorOccurred
  | warningOccurred
  | infoOccurred
  | connectionStateChanged
  | initializationDataReceived
  deriving DecidableEq, Repr

/-- Those of `Subscription`. -/
inductive SubscriptionEvent
  | infoOccurred
  | errorOccurred
  | dataReceived
  deriving DecidableEq, Repr

/-- All mutexes: every event handler has one. -/
inductive Mutex
  | tpc (e : TpcEvent)
  | client (e : ClientEvent)
  | subscription (e : SubscriptionEvent)
  | fieldWorkerMutex
  | pollingWorkerMutex
  | channelsInfoMutex
  | frameReceiverMutex
  | coefficientsMutex
  | fieldDataMutex
  deriving DecidableEq, Repr

/-- `calculate_field` takes the one of the field inside the one of the coefficients. Nothing is taken inside
those under which handlers of the user are copied and destroyed, nor they inside others. -/
def rank : Mutex → ℕ
  | .tpc _ => 1
  | .fieldDataMutex => 3
  | _ => 2

/-- What a user may call. -/
inductive Entry
  | startAsync
  | stopAsync
  | isRunning
  | getFrameRequest
  | createTestFrame
  | startPollingAsync
  | calculateFieldAsync
  | getFieldSlice
  | exportToVtk
  | subscribe (e : TpcEvent)
  | unsubscribe (e : TpcEvent)
  | release (e : TpcEvent)
  | dispose (e : TpcEvent)
  | invoke (e : TpcEvent)
  | empty (e : TpcEvent)
  | size (e : TpcEvent)
  deriving DecidableEq, Repr

abbrev Text : Type := Code Mutex Entry

/-- Code that takes no mutex and may throw. -/
def mayThrow : Text := .either .skip .raise

/-- The rest is not always run. -/
def optionally (c : Text) : Text := .either .skip c

/-! ## Event handlers -/

/-- `event_handler::invoke`: the handlers are copied under the mutex; they are called, and the copies are
destroyed, without it. -/
def invoke (l : Mutex) (copy destroy handler : Text) : Text :=
  .seq (.attempt (.guarded l .unique (.seq mayThrow copy)) (.seq destroy .raise)) (.seq (.loop handler) destroy)

/-- The handlers of the events of `TPC` are the user's. -/
def tpcInvoke (e : TpcEvent) : Text :=
  invoke (.tpc e) (.loop (.seq (.callable (.tpc e)) mayThrow)) .outside .outside

/-- Those of the other events are lambdas of the library. -/
def ownInvoke (l : Mutex) (handler : Text) : Text := invoke l .skip .skip handler

/-- `event_handler::subscribe`: the handler is moved into the table, and destroyed when that fails. -/
def subscribe (l : Mutex) : Text :=
  .guarded l .unique (.either .skip (.either .raise (.seq (.callable l) .raise)))

/-- `unsubscribe`, `release` and `dispose`: handlers are destroyed. -/
def destroyHandlers (l : Mutex) : Text := .guarded l .unique (.callable l)

/-- `TPC::initialize_start_handlers`: each event of the client but the warnings has one handler, which passes
it on. -/
def clientInvoke (e : ClientEvent) : Text :=
  ownInvoke (.client e) <|
    match e with
    | .errorOccurred => tpcInvoke .errorOccurred
    | .warningOccurred => .skip
    | .infoOccurred => tpcInvoke .infoOccurred
    | .connectionStateChanged => tpcInvoke .connectionStateChanged
    | .initializationDataReceived => tpcInvoke .initializationDataReceived

/-- `Client::on_subscription_data_received`, with `FrameReceiver::add_back`. -/
def onSubscriptionDataReceived : Text :=
  .seq mayThrow <| .either (clientInvoke .warningOccurred) <|
    .seq (.guarded .frameReceiverMutex .unique mayThrow) (optionally (clientInvoke .warningOccurred))

/-- `Client::Client`: the handlers of the subscription's events. -/
def subscriptionInvoke (e : SubscriptionEvent) : Text :=
  ownInvoke (.subscription e) <|
    match e with
    | .infoOccurred => .seq mayThrow (clientInvoke .infoOccurred)
    | .errorOccurred => .seq mayThrow (clientInvoke .errorOccurred)
    | .dataReceived => onSubscriptionDataReceived

/-! ## The subscription -/

/-- The lambda that receives a sample. -/
def dataChange : Text := .attempt (subscriptionInvoke .dataReceived) (subscriptionInvoke .errorOccurred)

/-- The lambda for a monitored item that was created. -/
def monitoredItemCreated : Text :=
  .attempt (.seq mayThrow (subscriptionInvoke .infoOccurred)) (subscriptionInvoke .errorOccurred)

/-- The lambda for one that was deleted. -/
def monitoredItemDeleted : Text := .seq mayThrow (subscriptionInvoke .infoOccurred)

def createMonitoredItems : Text :=
  .attempt (.seq mayThrow (.loop mayThrow)) (subscriptionInvoke .errorOccurred)

/-- `Subscription::create_subscription`. -/
def createSubscription : Text := mayThrow

/-! ## The client -/

/-- The task of `Client::initialize_monitored_items`, from one answer of the server to the next request or to
its end. -/
def discoveryTask : Text :=
  .attempt
    (.either mayThrow <| .seq (.guarded .channelsInfoMutex .unique mayThrow) <|
      .seq (clientInvoke .initializationDataReceived) createSubscription)
    (.seq mayThrow (clientInvoke .errorOccurred))

/-- The lambda of `onSessionActivated`. -/
def sessionActivated : Text :=
  .seq discoveryTask <| .seq (optionally (clientInvoke .errorOccurred)) (clientInvoke .connectionStateChanged)

/-- What `runIterate` may call. -/
def callback : Text :=
  .either sessionActivated <| .either (clientInvoke .connectionStateChanged) <| .either discoveryTask <|
    .either dataChange <| .either monitoredItemCreated <| .either monitoredItemDeleted createMonitoredItems

/-- The thread of `Client::connect_async`. -/
def opcuaWorker : Text :=
  .attempt
    (.seq mayThrow <| .seq (.loop (.seq .suspend (.seq (.loop callback) mayThrow))) (.loop callback))
    (clientInvoke .errorOccurred)

/-- `Client::connect_async`: the assignment to `opcua_thread_` joins the thread that it replaces. -/
def connectAsync : Text := optionally (.seq mayThrow (optionally .suspend))

/-- `Client::get_frame`. -/
def getFrame : Text :=
  .seq (.guarded .frameReceiverMutex .unique mayThrow) <|
    optionally (.seq mayThrow (.guarded .channelsInfoMutex .shared (.loop mayThrow)))

/-! ## The controller -/

def startAsync : Text :=
  .seq connectAsync <| optionally <| .either (tpcInvoke .errorOccurred) (tpcInvoke .warningOccurred)

def stopAsync : Text := .guarded .pollingWorkerMutex .unique .skip

def getFrameRequest : Text := .seq getFrame (.loop mayThrow)

/-- The thread object of a worker that is replaced is destroyed after the mutex is given back, also when the
new thread cannot be created. -/
def startPollingAsync : Text :=
  .either (tpcInvoke .warningOccurred) <|
    .seq (.attempt (.guarded .pollingWorkerMutex .unique mayThrow) (.seq (optionally .suspend) .raise))
      (optionally .suspend)

def calculateFieldAsync : Text :=
  optionally <| .seq (.guarded .fieldWorkerMutex .unique mayThrow) (optionally (tpcInvoke .warningOccurred))

/-- `AnalyticsManager::evaluate_field_slice`. -/
def getFieldSlice : Text := optionally (.guarded .coefficientsMutex .shared (.loop mayThrow))

/-- With a path, `AnalyticsManager::export_to_vtk` takes no mutex. -/
def exportToVtk : Text := mayThrow

/-- `AnalyticsManager::calculate_svd_coefficients`. -/
def calculateSvdCoefficients : Text := .seq mayThrow (optionally (.guarded .coefficientsMutex .unique .skip))

/-- `AnalyticsManager::calculate_field`. -/
def calculateField : Text :=
  optionally <| .guarded .coefficientsMutex .shared <| optionally <|
    .guarded .fieldDataMutex .unique (.loop mayThrow)

/-- A wait on a condition variable: the mutex is held for the test, and given back while it waits. -/
def waitFor (l : Mutex) : Text := .seq (.loop (.seq (.guarded l .unique .skip) .suspend)) (.guarded l .unique .skip)

def fieldWorkerLoop : Text :=
  .loop <| .seq (waitFor .fieldWorkerMutex) <|
    .seq (.attempt (.seq calculateSvdCoefficients (optionally calculateField)) .skip) <|
      .seq (.guarded .fieldWorkerMutex .unique .skip) <|
        .seq (optionally (.attempt (.seq mayThrow (tpcInvoke .errorOccurred)) .skip))
          (.attempt (tpcInvoke .fieldWasCalculated) .skip)

def pollingWorkerLoop : Text :=
  .loop <| .seq
    (.attempt (.seq getFrameRequest (.seq mayThrow (tpcInvoke .frameReceived)))
      (.attempt (.seq mayThrow (tpcInvoke .errorOccurred)) .skip))
    (waitFor .pollingWorkerMutex)

def Entry.code : Entry → Text
  | startAsync => Locking.startAsync
  | stopAsync => Locking.stopAsync
  | isRunning => .skip
  | getFrameRequest => Locking.getFrameRequest
  | createTestFrame => mayThrow
  | startPollingAsync => Locking.startPollingAsync
  | calculateFieldAsync => Locking.calculateFieldAsync
  | getFieldSlice => Locking.getFieldSlice
  | exportToVtk => Locking.exportToVtk
  | subscribe e => Locking.subscribe (.tpc e)
  | unsubscribe e | release e | dispose e => destroyHandlers (.tpc e)
  | empty e | size e => .guarded (.tpc e) .unique .skip
  | invoke e => tpcInvoke e

/-! ## The process -/

/-- What a thread runs. -/
inductive Role
  | user
  | fieldWorker
  | pollingWorker
  | opcuaWorker
  deriving DecidableEq, Repr

def Role.code : Role → Text
  | user => .outside
  | fieldWorker => fieldWorkerLoop
  | pollingWorker => pollingWorkerLoop
  | opcuaWorker => Locking.opcuaWorker

variable {ι : Type}

/-- Threads with these roles, before their first step. -/
def initial (role : ι → Role) : State Mutex Entry ι := fun t => ⟨false, [.run (role t).code]⟩

theorem ordered_code (op : Entry) : op.code.ordered rank none = true := by
  cases op with
  | subscribe e | unsubscribe e | release e | dispose e | invoke e | empty e | size e => cases e <;> decide
  | _ => decide

theorem ordered_role (role : Role) : role.code.ordered rank none = true := by
  cases role <;> decide

theorem rank_le (l : Mutex) : rank l ≤ 3 := by
  unfold rank
  split <;> decide

theorem exists_tpc {l : Mutex} (h : rank l = 1) : ∃ e, l = .tpc e := by
  cases l with
  | tpc e => exact ⟨e, rfl⟩
  | _ => cases h

/-- The mutexes that a thread holds while it runs code of the user or waits. -/
structure RunsUserCode (σ : State Mutex Entry ι) : Prop where
  /-- Handlers are called without any, and so are threads, times and the network waited for; -/
  handlers : ∀ t above c below, (σ t).stack = above ++ .run c :: below → c = .outside ∨ c = .suspend →
    held below = []
  /-- they are copied and destroyed under the one of their event alone. -/
  callables : ∀ t above l below, (σ t).stack = above ++ .run (.callable l) :: below →
    ∃ e m, l = .tpc e ∧ held below = [(l, m)]

variable [DecidableEq ι]

/-- **The mutexes never deadlock.** For any number of threads, whatever the handlers call and throw, a thread
that waits for a mutex waits, through others that wait, for one that can go on, provided that handlers which are
copied or destroyed call no function that takes a mutex; and handlers are called without mutexes. -/
theorem mutexes_never_deadlock {may : Entry → Prop} (hmay : ∀ op, may op → op.code.quiet = true)
    {role : ι → Role} {σ : State Mutex Entry ι} (h : Reachable Entry.code may (initial role) σ) :
    (∀ t l m, Waits σ t l m → Blocked σ l m →
      ∃ u, Relation.TransGen (WaitsFor σ) t u ∧ CanStep Entry.code may σ u) ∧ RunsUserCode σ := by
  have h₀ : ∀ t, Good rank (initial role t).stack := fun t => ⟨ordered_role (role t), trivial⟩
  have hgood := h.good ordered_code hmay h₀
  refine ⟨fun t l m hw hblocked => waits_for_runnable rank_le hgood hw hblocked, ?_, fun t above l below hs => ?_⟩
  · exact fun t above c below hs hc => outside_holds_nothing (hgood t) hs hc
  · obtain ⟨hrank, m, hheld⟩ := callable_holds_one (hgood t) hs
    obtain ⟨e, rfl⟩ := exists_tpc hrank
    exact ⟨e, m, rfl, hheld⟩

/-! ## Two users of one event -/

/-- In the call of a function of an event. -/
def called (op : Entry) : Thread Mutex Entry := ⟨false, [.run op.code, .run .outside]⟩

/-- In `release`, where the handlers are destroyed. -/
def destroying (e : TpcEvent) : Thread Mutex Entry :=
  ⟨false, [.run (.callable (.tpc e)), .release (.tpc e) .unique, .run .outside]⟩

theorem moves_release (may : Entry → Prop) (e : TpcEvent) :
    Moves Entry.code may (called (.release e)) (some (.tpc e, .unique)) (destroying e) :=
  .acquire (Mutex.tpc e) .unique (.callable (.tpc e)) [.run .outside]

/-- `mutexes_never_deadlock` for a user who subscribes while another one is in `release`: a destructor may call
`create_test_frame`. -/
theorem mutexes_never_deadlock_releasing : ∃ σ : State Mutex Entry Bool,
    Reachable Entry.code (fun op => op = .createTestFrame) (initial fun _ => .user) σ ∧
      Waits σ false (.tpc .frameReceived) .unique ∧ Blocked σ (.tpc .frameReceived) .unique ∧
      RunsUserCode σ ∧
      ∃ u, Relation.TransGen (WaitsFor σ) false u ∧ CanStep Entry.code (fun op => op = .createTestFrame) σ u := by
  let e : TpcEvent := .frameReceived
  let may : Entry → Prop := fun op => op = .createTestFrame
  let both : State Mutex Entry Bool := Function.update (Function.update (initial fun _ => .user) true
    (called (.release e))) false (called (.subscribe e))
  have h : Reachable Entry.code may (initial fun _ => .user) both :=
    .tail (.tail .refl (.free _ true _ (.calls (Entry.release e) [])))
      (.free _ false _ (.calls (Entry.subscribe e) []))
  have hfree : both.Free (.tpc e) .unique := fun u m' hu => by cases u <;> cases hu
  have h' := h.tail (.acquire both true _ _ (destroying e) (moves_release may e) hfree)
  have hw : Waits (Function.update both true (destroying e)) false (.tpc e) .unique := ⟨_, [.run .outside], rfl⟩
  have hblocked : Blocked (Function.update both true (destroying e)) (.tpc e) .unique :=
    .inl fun hfree => hfree true .unique List.mem_cons_self trivial
  have hmay : ∀ op, may op → op.code.quiet = true := by
    rintro _ rfl
    rfl
  obtain ⟨hwaits, hruns⟩ := mutexes_never_deadlock hmay h'
  exact ⟨_, h', hw, hblocked, hruns, hwaits _ _ _ hw hblocked⟩

/-- Handlers whose destruction asks for the size of their event block `release`, and themselves, for good. -/
theorem exists_deadlock (e : TpcEvent) : ∃ σ : State Mutex Entry Unit,
    Reachable Entry.code (fun op => op = .size e) (initial fun _ => .user) σ ∧ Waits σ () (.tpc e) .unique ∧
      ∀ u, ¬ CanStep Entry.code (fun op => op = .size e) σ u := by
  let may : Entry → Prop := fun op => op = .size e
  let inRelease : State Mutex Entry Unit := Function.update (initial fun _ => .user) () (called (.release e))
  have h : Reachable Entry.code may (initial fun _ => .user) inRelease :=
    .tail .refl (.free _ () _ (.calls (Entry.release e) []))
  have hfree : inRelease.Free (.tpc e) .unique := fun u m' hu => by cases hu
  have h₁ := h.tail (.acquire inRelease () _ _ (destroying e) (moves_release may e) hfree)
  have h₂ := h₁.tail (.free _ () _
    (.handles (Mutex.tpc e) (Entry.size e) [.release (.tpc e) .unique, .run .outside] rfl))
  refine ⟨_, h₂, ⟨.skip, _, rfl⟩, ?_⟩
  rintro ⟨⟩ ⟨a, th, hm, ha⟩
  cases hm with
  | acquire l m c s =>
    exact ha (.tpc e) .unique rfl (.inl fun hfree => hfree () .unique (List.mem_cons_self ..) trivial)

end TPC.System.Locking
