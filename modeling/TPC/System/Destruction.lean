import TPC.Lib.Runs

/-!
# The destruction of a TPC

`~TPC` destroys the members one by one, the last declared first, and in the turn of `client_` those of
the `Client`. A thread is told to stop and waited for in its own turn, so that until then its steps go
on.

* `TpcMember`, `ClientMember`, `destruction`: the members, and the order in which they are destroyed;
* `Place`, **`Moves`**: the steps of the three workers, with the members that each one uses;
* `State`, `Action`, **`Step`**;
* `Outlives`, `uses_spec`: what a worker uses is destroyed after its thread, but for four members;
* `Keeps`, **`touched_eq_nil`**: when no step uses a destroyed member;
* `not_forall_touched_eq_nil`: a poller that is stopped by the destructor.
-/

namespace TPC.System.Destruction

/-- The members of `TPC`. -/
inductive TpcMember
  | errorOccurred
  | warningOccurred
  | infoOccurred
  | connectionStateChanged
  | initializationDataReceived
  | frameReceived
  | fieldWasCalculated
  | impl
  | client
  | fieldWorkerMutex
  | fieldWorkerCv
  | pendingCalculationData
  | fieldCalculationInProgress
  | fieldWorker
  | pollingWorkerMutex
  | pollingWorkerCv
  | pollingWorker
  | pollingIntervalMs
  | pollingIntervalRevision
  deriving DecidableEq, Repr

/-- The members of `Client`. -/
inductive ClientMember
  | errorOccurred
  | warningOccurred
  | infoOccurred
  | connectionStateChanged
  | initializationDataReceived
  | subscription
  | client
  | endpoint
  | frameReceiver
  | running
  | stopRequested
  | opcuaThread
  | channelsInfo
  | channelsInfoMutex
  deriving DecidableEq, Repr

inductive Member
  | tpc (m : TpcMember)
  | client (m : ClientMember)
  deriving DecidableEq, Repr

/-- In the order of their declaration. -/
def TpcMember.declared : List TpcMember :=
  [errorOccurred, warningOccurred, infoOccurred, connectionStateChanged, initializationDataReceived,
    frameReceived, fieldWasCalculated, impl, client, fieldWorkerMutex, fieldWorkerCv,
    pendingCalculationData, fieldCalculationInProgress, fieldWorker, pollingWorkerMutex, pollingWorkerCv,
    pollingWorker, pollingIntervalMs, pollingIntervalRevision]

/-- In the order of their declaration. -/
def ClientMember.declared : List ClientMember :=
  [errorOccurred, warningOccurred, infoOccurred, connectionStateChanged, initializationDataReceived,
    subscription, client, endpoint, frameReceiver, running, stopRequested, opcuaThread, channelsInfo,
    channelsInfoMutex]

/-- The order in which the members are destroyed: the declarations backwards, with the members of the
`Client` in the turn of `client_`. -/
def destruction : List Member :=
  TpcMember.declared.reverse.flatMap fun m =>
    if m = .client then ClientMember.declared.reverse.map .client ++ [.tpc .client] else [.tpc m]

inductive Worker
  | polling
  | field
  | opcua
  deriving DecidableEq, Repr

/-- The thread object of a worker. -/
def Worker.thread : Worker → Member
  | polling => .tpc .pollingWorker
  | field => .tpc .fieldWorker
  | opcua => .client .opcuaThread

/-- The calls of the OPC UA worker into `client_`, which calls back. -/
inductive Call
  | connectAsync
  | runIterate
  | disconnect
  deriving DecidableEq, Repr

/-- Where a worker stands. -/
inductive Place
  | absent
  | done
  /-- At the condition of the loop of `polling_worker_loop`. -/
  | polling
  | requesting
  | receiving
  | failing
  | reading
  | waiting
  /-- At the condition of the loop of `field_worker_loop`. -/
  | field
  | awaiting
  | calculating
  | finishing
  | reporting
  | notifying
  /-- Before the end of `connectAsync`. -/
  | connecting
  | inside (c : Call)
  /-- A discovery has come to its end, and its table is to be installed. -/
  | installing (c : Call)
  | announcing (c : Call)
  | subscribing (c : Call)
  /-- In `upon_error`. -/
  | rescuing (c : Call)
  /-- At the condition of the loop of the OPC UA worker. -/
  | opcua
  | disconnecting
  | catching
  | leaving
  deriving DecidableEq, Repr

/-- Where a worker begins. -/
def Worker.start : Worker → Place
  | polling => .polling
  | field => .field
  | opcua => .connecting

/-- After the call into `client_`. -/
def Call.next : Call → Place
  | connectAsync | runIterate => .opcua
  | disconnect => .leaving

/-- The thread has not been created, or it has ended. -/
def Place.quiet (p : Place) : Prop := p = .absent ∨ p = .done

/-- What `client_` calls back without changing the place, with the members used. -/
inductive CallsBack : List Member → Prop
  /-- `on_opcua_connected` and the like. -/
  | stateChanged : CallsBack [.client .connectionStateChanged, .tpc .connectionStateChanged]
  /-- `initialize_monitored_items`. -/
  | sessionActivated : CallsBack [.client .client, .client .connectionStateChanged, .tpc .connectionStateChanged]
  /-- A discovery goes on to its next browse. -/
  | browsed : CallsBack [.client .client]
  /-- The response to `create_subscription`, and those of the monitored items. -/
  | subscribed : CallsBack [.client .subscription, .client .client]
  | sampled : CallsBack [.client .subscription, .client .frameReceiver, .client .warningOccurred]
  | subscriptionError : CallsBack [.client .subscription, .client .errorOccurred, .tpc .errorOccurred]
  | subscriptionInfo : CallsBack [.client .subscription, .client .infoOccurred, .tpc .infoOccurred]

/-- The steps of the workers. `told` is their exit condition. -/
inductive Moves : Worker → Bool → Place → List Member → Place → Prop
  -- `polling_worker_loop`
  | poll (told : Bool) (h : told = false) : Moves .polling told .polling [] .requesting
  | pollStops (told : Bool) (h : told = true) : Moves .polling told .polling [] .done
  | request (told : Bool) : Moves .polling told .requesting
      [.tpc .client, .client .frameReceiver, .client .channelsInfoMutex, .client .channelsInfo] .receiving
  /-- There is no frame, and `value` throws. -/
  | requestThrows (told : Bool) :
    Moves .polling told .requesting [.tpc .client, .client .frameReceiver] .failing
  | receive (told : Bool) : Moves .polling told .receiving [.tpc .frameReceived] .reading
  | receiveThrows (told : Bool) : Moves .polling told .receiving [.tpc .frameReceived] .failing
  | fail (told : Bool) : Moves .polling told .failing [.tpc .errorOccurred] .reading
  | read (told : Bool) : Moves .polling told .reading
      [.tpc .pollingWorkerMutex, .tpc .pollingIntervalMs, .tpc .pollingIntervalRevision] .waiting
  /-- The predicate of `wait_for`, which is evaluated when the worker is told to stop as well. -/
  | wait (told again : Bool) : Moves .polling told .waiting
      [.tpc .pollingWorkerMutex, .tpc .pollingWorkerCv, .tpc .pollingIntervalRevision]
      (if again then .waiting else .polling)
  -- `field_worker_loop`
  | go (told : Bool) (h : told = false) : Moves .field told .field [] .awaiting
  | goStops (told : Bool) (h : told = true) : Moves .field told .field [] .done
  | await (told : Bool) : Moves .field told .awaiting
      [.tpc .fieldWorkerMutex, .tpc .fieldWorkerCv, .tpc .pendingCalculationData] .awaiting
  | take (told : Bool) : Moves .field told .awaiting
      [.tpc .fieldWorkerMutex, .tpc .fieldWorkerCv, .tpc .pendingCalculationData] .calculating
  | awaitStops (told : Bool) (h : told = true) : Moves .field told .awaiting
      [.tpc .fieldWorkerMutex, .tpc .fieldWorkerCv, .tpc .pendingCalculationData] .done
  | calculate (told : Bool) : Moves .field told .calculating [.tpc .impl] .finishing
  | finish (told failed : Bool) : Moves .field told .finishing
      [.tpc .fieldWorkerMutex, .tpc .fieldCalculationInProgress] (if failed then .reporting else .notifying)
  | report (told : Bool) : Moves .field told .reporting [.tpc .errorOccurred] .notifying
  | notify (told : Bool) : Moves .field told .notifying [.tpc .fieldWasCalculated] .field
  -- the OPC UA worker
  | connect (told : Bool) : Moves .opcua told .connecting [.client .client, .client .endpoint] (.inside .connectAsync)
  | connectThrows (told : Bool) : Moves .opcua told .connecting [.client .client, .client .endpoint] .catching
  | check (told : Bool) (h : told = false) :
    Moves .opcua told .opcua [.client .stopRequested, .client .client] (.inside .runIterate)
  | stops (told : Bool) (h : told = true) : Moves .opcua told .opcua [.client .stopRequested] .disconnecting
  | disconnect (told : Bool) : Moves .opcua told .disconnecting [.client .client] (.inside .disconnect)
  | disconnected (told : Bool) : Moves .opcua told .disconnecting [.client .client] .leaving
  | goOn (told : Bool) (c : Call) : Moves .opcua told (.inside c) [.client .client] (.inside c)
  | callBack (told : Bool) (c : Call) (uses : List Member) (h : CallsBack uses) :
    Moves .opcua told (.inside c) uses (.inside c)
  /-- The answer to the last browse of a discovery. -/
  | discovered (told : Bool) (c : Call) : Moves .opcua told (.inside c) [.client .client] (.installing c)
  | install (told : Bool) (c : Call) : Moves .opcua told (.installing c)
      [.client .channelsInfoMutex, .client .channelsInfo] (.announcing c)
  | announce (told throws : Bool) (c : Call) : Moves .opcua told (.announcing c)
      [.client .initializationDataReceived, .tpc .initializationDataReceived]
      (if throws then .rescuing c else .subscribing c)
  | subscribe (told throws : Bool) (c : Call) : Moves .opcua told (.subscribing c)
      [.client .subscription, .client .client] (if throws then .rescuing c else .inside c)
  | discoveryThrows (told : Bool) (c : Call) : Moves .opcua told (.inside c) [.client .client] (.rescuing c)
  | rescue (told : Bool) (c : Call) :
    Moves .opcua told (.rescuing c) [.client .errorOccurred, .tpc .errorOccurred] (.inside c)
  | returns (told : Bool) (c : Call) : Moves .opcua told (.inside c) [.client .client] c.next
  | throws (told : Bool) (c : Call) : Moves .opcua told (.inside c) [.client .client] .catching
  | catches (told : Bool) : Moves .opcua told .catching [.client .errorOccurred, .tpc .errorOccurred] .leaving
  | leave (told : Bool) : Moves .opcua told .leaving [.client .running] .done

/-- The workers, how many members have been destroyed, and, as the history, the destroyed members that a
step of a worker has used. -/
structure State where
  place : Worker → Place
  told : Worker → Bool
  destroyed : ℕ
  touched : List Member

/-- Nothing has been called. -/
def State.init : State := ⟨fun _ => .absent, fun _ => false, 0, []⟩

/-- The first `destroyed` members of the order have been destroyed. -/
def State.Alive (σ : State) (m : Member) : Prop := σ.destroyed ≤ destruction.idxOf m

instance (σ : State) (m : Member) : Decidable (σ.Alive m) := inferInstanceAs (Decidable (_ ≤ _))

inductive Action
  | start (w : Worker)
  | stop (w : Worker)
  | work (w : Worker) (uses : List Member) (p : Place)
  | requestStop (w : Worker)
  | destroy (m : Member)

/-- One step. The methods are called before the destruction, and the threads that they replace have been
joined by then. -/
inductive Step (σ : State) : Action → State → Prop
  | start (w : Worker) (h : σ.destroyed = 0) (hw : (σ.place w).quiet) : Step σ (.start w)
      { σ with place := Function.update σ.place w w.start, told := Function.update σ.told w false }
  | stop (w : Worker) (h : σ.destroyed = 0) : Step σ (.stop w) { σ with told := Function.update σ.told w true }
  | work (w : Worker) (uses : List Member) (p : Place) (h : Moves w (σ.told w) (σ.place w) uses p) :
    Step σ (.work w uses p)
      { σ with
        place := Function.update σ.place w p
        touched := σ.touched ++ uses.filter fun m => ¬ σ.Alive m }
  /-- The destructor of a `std::jthread` begins. -/
  | requestStop (w : Worker) (h : destruction[σ.destroyed]? = some w.thread) :
    Step σ (.requestStop w) { σ with told := Function.update σ.told w true }
  /-- A destructor ends. That of a thread has waited. -/
  | destroy (m : Member) (h : destruction[σ.destroyed]? = some m)
    (hw : ∀ w, m = w.thread → σ.place w = .absent ∨ σ.told w = true ∧ σ.place w = .done) :
    Step σ (.destroy m) { σ with destroyed := σ.destroyed + 1 }

variable {σ σ' : State} {a : Action} {w : Worker} {told : Bool} {p q : Place} {uses : List Member}

/-! ## What the workers use -/

/-- The member is destroyed after the thread of the worker. -/
def Outlives (w : Worker) (m : Member) : Prop := destruction.idxOf w.thread ≤ destruction.idxOf m

instance (w : Worker) (m : Member) : Decidable (Outlives w m) := inferInstanceAs (Decidable (_ ≤ _))

/-- The places at which a worker uses members that are declared after its thread. -/
def Place.exposed : Place → Bool
  | .reading | .waiting | .installing _ => true
  | _ => false

/-- The member that is destroyed first of those that are used there. -/
def Place.first : Place → Member
  | .installing _ => .client .channelsInfoMutex
  | _ => .tpc .pollingIntervalRevision

theorem outlives_of_callsBack (h : CallsBack uses) : ∀ m ∈ uses, Outlives .opcua m := by
  cases h <;> decide

/-- **What a step uses**: only the members that outlive the thread, unless the worker is at one of the
exposed places. -/
theorem uses_spec (h : Moves w told p uses q) (hp : p.exposed = false) : ∀ m ∈ uses, Outlives w m := by
  cases h with
  | read | wait | install => cases hp
  | callBack told c uses hc => exact outlives_of_callsBack hc
  | _ => decide

/-- There it uses a member that is destroyed before the thread, and none that is destroyed before that
one. -/
theorem exposed_spec (h : Moves w told p uses q) (hp : p.exposed = true) :
    p.first ∈ uses ∧ ∀ m ∈ uses, destruction.idxOf p.first ≤ destruction.idxOf m := by
  cases h with
  | read | wait => exact ⟨by decide, by decide⟩
  | install told c => exact ⟨List.mem_cons_self, by simp only [Place.first]; decide⟩
  | _ => cases hp

theorem Moves.not_quiet (h : Moves w told p uses q) : ¬ p.quiet := by
  rintro (rfl | rfl) <;> cases h

/-! ## Runs -/

/-- The thread objects that have been destroyed have waited for their workers. -/
def Joined (σ : State) : Prop := ∀ w, ¬ σ.Alive w.thread → (σ.place w).quiet

theorem thread_mem (w : Worker) : w.thread ∈ destruction := by cases w <;> decide

theorem joined_step (h : Joined σ) (hs : Step σ a σ') : Joined σ' := by
  intro v hv
  cases hs with
  | start w h₀ hw => exact absurd (h₀ ▸ Nat.zero_le _) hv
  | stop | requestStop => exact h v hv
  | work w uses p hm =>
    by_cases hvw : v = w
    · subst hvw
      exact absurd (h v hv) hm.not_quiet
    · simpa [Function.update_of_ne hvw] using h v hv
  | destroy m hm hw =>
    by_cases hold : σ.Alive v.thread
    · have hidx : destruction.idxOf v.thread = σ.destroyed := by
        have hlt : ¬ σ.destroyed + 1 ≤ destruction.idxOf v.thread := hv
        exact le_antisymm (by omega) hold
      have hthread : destruction[destruction.idxOf v.thread]? = some v.thread :=
        List.getElem?_idxOf (thread_mem v)
      rw [hidx, hm, Option.some_inj] at hthread
      exact (hw v hthread).imp_right And.right
    · exact h v hold

theorem joined_of_reach {ok : State → Action → Prop} (h : Runs.Reach Step ok .init σ) : Joined σ :=
  h.invariant (fun _ _ => .inl rfl) fun _ _ _ _ hi _ hs => joined_step hi hs

/-- The poller reads its interval before any member is destroyed, and a discovery is installed before
any member of the `Client` is. -/
def Keeps (σ : State) : Action → Prop
  | .work w _ _ => match σ.place w with
    | .reading | .waiting => ∀ m, σ.Alive m
    | .installing _ => ∀ m, σ.Alive (.client m)
    | _ => True
  | _ => True

theorem first_le (m : Member) : destruction.idxOf (Place.first .reading) ≤ destruction.idxOf m :=
  le_of_eq_of_le (by decide) (Nat.zero_le _)

theorem first_le_client (c : Call) (m : ClientMember) :
    destruction.idxOf (Place.first (.installing c)) ≤ destruction.idxOf (.client m) := by
  show destruction.idxOf (.client .channelsInfoMutex) ≤ _
  cases m <;> decide

theorem keeps_work : Keeps σ (.work w uses q) ↔
    ((σ.place w).exposed = true → σ.Alive (σ.place w).first) := by
  simp only [Keeps]
  cases σ.place w with
  | reading | waiting => exact ⟨fun h _ => h _, fun h m => (h rfl).trans (first_le m)⟩
  | installing c => exact ⟨fun h _ => h _, fun h m => (h rfl).trans (first_le_client c m)⟩
  | _ => exact ⟨fun _ hf => absurd hf nofun, fun _ => trivial⟩

/-- **One step**: a worker uses living members exactly as long as `Keeps` says. -/
theorem alive_iff (hj : Joined σ) (hm : Moves w (σ.told w) (σ.place w) uses q) :
    (∀ m ∈ uses, σ.Alive m) ↔ Keeps σ (.work w uses q) := by
  rw [keeps_work]
  cases hp : (σ.place w).exposed with
  | true =>
    obtain ⟨hfirst, hleast⟩ := exposed_spec hm hp
    exact ⟨fun h _ => h _ hfirst, fun h m hmem => (h rfl).trans (hleast m hmem)⟩
  | false =>
    refine iff_of_true (fun m hmem => ?_) nofun
    have hthread : σ.Alive w.thread := by
      by_contra hdead
      exact hm.not_quiet (hj w hdead)
    exact hthread.trans (uses_spec hm hp m hmem)

theorem touched_step (hj : Joined σ) (ht : σ.touched = []) (hs : Step σ a σ') :
    σ'.touched = [] ↔ Keeps σ a := by
  cases hs with
  | work w uses p hm =>
    rw [← alive_iff hj hm]
    simp [ht]
  | start | stop | requestStop | destroy => exact iff_of_true ht trivial

theorem nodup_destruction : destruction.Nodup := by decide

/-- Members are destroyed one after the other as long as no thread is among them whose worker has not
ended. -/
theorem reach_destroy {ok : State → Action → Prop} (hok : ∀ σ m, ok σ (.destroy m))
    (h : Runs.Reach Step ok .init σ) (h₀ : σ.destroyed = 0) :
    ∀ n, n ≤ destruction.length → (∀ w, destruction.idxOf w.thread < n → σ.place w = .absent) →
      Runs.Reach Step ok .init { σ with destroyed := n }
  | 0, _, _ => by
    rw [← h₀]
    exact h
  | n + 1, hn, hquiet => by
    have hrest := reach_destroy hok h h₀ n (Nat.le_of_succ_le hn) fun w hw => hquiet w (Nat.lt_succ_of_lt hw)
    refine hrest.step (.destroy _ (List.getElem?_eq_getElem hn) fun w hw => .inl (hquiet w ?_)) (hok _ _)
    rw [← hw, nodup_destruction.idxOf_getElem]
    exact Nat.lt_succ_self n

/-- **No worker step uses a destroyed member** in a run whose steps meet `Keeps`, and a step that does not
meet it is one that uses one. -/
theorem touched_eq_nil (h : Runs.Reach Step Keeps .init σ) :
    σ.touched = [] ∧ ∀ a σ', Step σ a σ' → (σ'.touched = [] ↔ Keeps σ a) := by
  have ht : σ.touched = [] := h.invariant (I := fun σ => σ.touched = []) rfl
    fun s a s' hr hi hk hs => (touched_step (joined_of_reach hr) hi hs).mpr hk
  exact ⟨ht, fun a σ' hs => touched_step (joined_of_reach h) ht hs⟩

/-- `touched_eq_nil` for a `Client` of which two members have been destroyed while its worker runs. -/
theorem touched_eq_nil_running : ∃ σ : State, ¬ σ.Alive (.client .channelsInfo) ∧
    σ.place .opcua = .inside .runIterate ∧ σ.touched = [] := by
  have h₀ : Runs.Reach Step Keeps State.init .init := .init
  have h₁ := h₀.step (.start .opcua rfl (.inl rfl)) trivial
  have h₂ := h₁.step (.work .opcua _ _ (.connect false)) trivial
  have h₃ := h₂.step (.work .opcua _ _ (.returns false .connectAsync)) trivial
  have h₄ := reach_destroy (fun _ _ => trivial) h₃ rfl 12 (by decide) fun w hw => ?_
  · have h₅ := h₄.step (.work .opcua _ _ (.check false rfl)) trivial
    exact ⟨_, by decide, rfl, (touched_eq_nil h₅).1⟩
  · cases w with
    | polling | field => rfl
    | opcua => exact absurd hw (by decide)

/-! ## Members that are destroyed too early -/

/-- A discovery ends while the `Client` is being destroyed, and is installed under a mutex that is no
more. -/
theorem not_forall_touched_eq_nil : ¬ ∀ σ, Runs.Reachable Step .init σ → σ.touched = [] := by
  intro h
  have h₀ : Runs.Reachable Step State.init .init := .init
  have h₁ := h₀.then (.start .opcua rfl (.inl rfl))
  have h₂ := h₁.then (.work .opcua _ _ (.connect false))
  have h₃ := h₂.then (.work .opcua _ _ (.callBack false .connectAsync _ .sessionActivated))
  have h₄ := h₃.then (.work .opcua _ _ (.discovered false .connectAsync))
  have h₅ := reach_destroy (fun _ _ => trivial) h₄ rfl 11 (by decide) fun w hw => ?_
  · have h₆ := h₅.then (.work .opcua _ _ (.install false .connectAsync))
    exact absurd (h _ h₆) (by decide)
  · cases w with
    | polling | field => rfl
    | opcua => exact absurd hw (by decide)

/-- A poller that waits for its next turn evaluates its predicate when the destructor tells it to stop,
and reads a revision that is no more. -/
theorem touches_pollingIntervalRevision : ∃ σ, Runs.Reachable Step .init σ ∧
    σ.told .polling = true ∧ σ.touched = [.tpc .pollingIntervalRevision] := by
  have h₀ : Runs.Reachable Step State.init .init := .init
  have h₁ := h₀.then (.start .polling rfl (.inl rfl))
  have h₂ := h₁.then (.work .polling _ _ (.poll false rfl))
  have h₃ := h₂.then (.work .polling _ _ (.requestThrows false))
  have h₄ := h₃.then (.work .polling _ _ (.fail false))
  have h₅ := h₄.then (.work .polling _ _ (.read false))
  have h₆ := reach_destroy (fun _ _ => trivial) h₅ rfl 2 (by decide) fun w hw => ?_
  · have h₇ := h₆.then (.requestStop .polling rfl)
    have h₈ := h₇.then (.work .polling _ _ (.wait true false))
    exact ⟨_, h₈, rfl, by decide⟩
  · cases w <;> exact absurd hw (by decide)

end TPC.System.Destruction
