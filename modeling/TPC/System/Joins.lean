import TPC.System.Restart

/-!
# The joins cannot deadlock

`start_async` joins the OPC UA worker that it replaces, and `start_polling_async` the polling worker that
it replaces, on any thread, also in the handlers of other workers.

* `Waits`: a thread joins another one that has not ended;
* `Apart`: no handler of a polling worker joins its own thread, and no two calls of `connect_async` overlap;
* `Solo`: then the OPC UA worker that is joined has ended;
* `Later`: and a handler of a polling worker joins only workers created after its own;
* **`joins_never_deadlock`**: no threads wait for each other, and one of those that a call waits for can go
  on.
-/

namespace TPC.System.Joins

open Restart

/-! ## The OPC UA workers -/

section

open Connection

variable {ι : Type} {σ σ' : Connection.State ι} {a : Connection.Action ι} {i : ι}
  {c : Connection.Call} {w : ℕ}

/-- One call of `connect_async` at a time; the worker that it has created is the only one that may not have
ended, and the one that it joins has ended. -/
structure Solo (σ : Connection.State ι) : Prop where
  one : ∀ i j, (σ.call i).connects = true → (σ.call j).connects = true → i = j
  present : ∀ w, σ.opcuaThread = some w → σ.phase w ≠ .absent
  created : ∀ i w, σ.call i = .replacing w → σ.opcuaThread ≠ some w ∧ σ.phase w ≠ .absent ∧
    ∀ v, (σ.phase v).unfinished = true → v = w
  joined : ∀ i w old, σ.call i = .joining w old → σ.phase old = .done ∧ σ.phase w ≠ .absent

theorem solo_init : Solo (.init : Connection.State ι) := ⟨nofun, nofun, nofun, nofun⟩

theorem Solo.congr (h : Solo σ) (ht : σ'.opcuaThread = σ.opcuaThread) (hp : σ'.phase = σ.phase)
    (hc : σ'.call = σ.call) : Solo σ' := by
  obtain ⟨hone, hpresent, hcreated, hjoined⟩ := h
  constructor
  · rwa [hc]
  · rwa [ht, hp]
  · rwa [ht, hp, hc]
  · rwa [hp, hc]

variable [DecidableEq ι]

theorem Solo.setCall (h : Solo σ) (hc : c.connects = true → ∀ j, (σ.call j).connects = true → j = i)
    (hr : ∀ w, c = .replacing w → σ.opcuaThread ≠ some w ∧ σ.phase w ≠ .absent ∧
      ∀ v, (σ.phase v).unfinished = true → v = w)
    (hj : ∀ w old, c = .joining w old → σ.phase old = .done ∧ σ.phase w ≠ .absent) : Solo (σ.setCall i c) where
  one j k hj hk := by
    rcases connects_setCall hj with ⟨rfl, hcj⟩ | holdj
    · rcases connects_setCall hk with ⟨rfl, -⟩ | holdk
      · rfl
      · exact (hc hcj k holdk).symm
    · rcases connects_setCall hk with ⟨rfl, hck⟩ | holdk
      · exact hc hck j holdj
      · exact h.one j k holdj holdk
  present := h.present
  created j w hw := by
    by_cases hji : j = i
    · subst hji
      exact hr w (by simpa using hw)
    · exact h.created j w (by simpa [Function.update_of_ne hji] using hw)
  joined j w old hw := by
    by_cases hji : j = i
    · subst hji
      exact hj w old (by simpa using hw)
    · exact h.joined j w old (by simpa [Function.update_of_ne hji] using hw)

theorem Solo.leave (h : Solo σ) (hc : c.connects = false) : Solo (σ.setCall i c) :=
  h.setCall (fun ht => by rw [hc] at ht; cases ht) (fun w he => by rw [he] at hc; cases hc)
    fun w old he => by rw [he] at hc; cases hc

theorem Solo.goOn (h : Solo σ) (hi : (σ.call i).connects = true) (hr : ∀ w, c ≠ .replacing w)
    (hj : ∀ w old, c ≠ .joining w old) : Solo (σ.setCall i c) :=
  h.setCall (fun _ j hj => h.one j i hj hi) (fun w he => absurd he (hr w)) fun w old he => absurd he (hj w old)

theorem Solo.assign (h : Solo σ) (hi : (σ.call i).connects = true) (hw : σ.phase w ≠ .absent) (b : Bool) :
    Solo { σ.setCall i .idle with opcuaThread := some w, started := b } := by
  have hleft : Solo (σ.setCall i .idle) := h.leave rfl
  refine ⟨hleft.one, fun w' hw' => ?_, fun j w' hj => ?_, hleft.joined⟩
  · cases hw'
    exact hw
  · have hjc : ((σ.setCall i .idle).call j).connects = true := by
      rw [show (σ.setCall i .idle).call j = .replacing w' from hj]
      rfl
    rcases connects_setCall hjc with ⟨rfl, hc⟩ | hold
    · cases hc
    · obtain rfl := h.one j i hold hi
      simp at hjc
      cases hjc

omit [DecidableEq ι] in
theorem Solo.setPhase (h : Solo σ) {p : Phase} (hw : (σ.phase w).unfinished = true) (hp : p ≠ .absent) :
    Solo (σ.setPhase w p) := by
  have hne : ∀ {v}, σ.phase v ≠ .absent → (σ.setPhase w p).phase v ≠ .absent := by
    intro v hv
    by_cases hvw : v = w
    · subst hvw
      simpa using hp
    · simpa [Function.update_of_ne hvw] using hv
  refine ⟨h.one, fun v hv => hne (h.present v hv), fun j v hj => ?_, fun j v old hj => ?_⟩
  · obtain ⟨hv, hpresent, halone⟩ := h.created j v hj
    refine ⟨hv, hne hpresent, fun u hu => halone u ?_⟩
    by_cases huw : u = w
    · rwa [huw]
    · simpa [Function.update_of_ne huw] using hu
  · obtain ⟨hdone, hpresent⟩ := h.joined j v old hj
    refine ⟨?_, hne hpresent⟩
    have how : old ≠ w := by
      rintro rfl
      rw [hdone] at hw
      cases hw
    simpa [Function.update_of_ne how] using hdone

theorem Solo.spawn (h : Solo σ) (ho : Owned σ) (hi : σ.call i = .installed) :
    Solo (σ.spawn.setCall i (.replacing σ.spawned)) := by
  have hfresh : σ.phase σ.spawned = .absent := ho.fresh _ le_rfl
  have hne : ∀ {v}, σ.phase v ≠ .absent → σ.spawn.phase v = σ.phase v := by
    intro v hv
    have hvs : v ≠ σ.spawned := by
      rintro rfl
      exact hv hfresh
    simp [Function.update_of_ne hvs]
  have hnone : ∀ v, (σ.phase v).unfinished = true → False := by
    intro v hv
    have howner : σ.owns (.call i) = true := by simp [State.owns, hi, Call.owns]
    cases ho.unique (.worker v) (.call i) hv howner
  have hconnects : (σ.call i).connects = true := by rw [hi]; rfl
  -- the members and the other calls stay as they are
  have hspawned : Solo σ.spawn := by
    refine ⟨h.one, fun v hv => ?_, fun j v hj => ?_, fun j v old hj => ?_⟩
    · rw [hne (h.present v hv)]
      exact h.present v hv
    · obtain rfl := h.one j i (by rw [show σ.call j = .replacing v from hj]; rfl) hconnects
      cases hi.symm.trans hj
    · obtain rfl := h.one j i (by rw [show σ.call j = .joining v old from hj]; rfl) hconnects
      cases hi.symm.trans hj
  refine hspawned.setCall (fun _ j hj => h.one j i hj hconnects) (fun w hw => ?_) (fun w old he => ?_)
  case refine_2 => cases he
  cases hw
  refine ⟨fun ht => h.present _ ht hfresh, by simp, fun v hv => ?_⟩
  by_contra hvs
  have hold : (σ.phase v).unfinished = true := by simpa [Function.update_of_ne hvs] using hv
  exact hnone v hold

theorem solo_step (ho : Owned σ) (h : Solo σ) (hs : Does σ a σ')
    (ha : ∀ i, a = .claim i → ∀ j, (σ.call j).connects = false) : Solo σ' := by
  cases hs with
  | isRunning | alreadyRunning | terminate => exact h.congr rfl rfl rfl
  | claim i hi hr =>
    refine (h.setCall (i := i) (c := .claimed) (fun _ j hj => ?_) nofun nofun).congr rfl rfl rfl
    rw [ha i rfl j] at hj
    cases hj
  | clear i hi => exact (h.goOn (i := i) (c := .cleared) (by rw [hi]; rfl) nofun nofun).congr rfl rfl rfl
  | install i hi | refuse i hi => exact h.goOn (by rw [hi]; rfl) nofun nofun
  | reset i | installThrows i | spawnThrows i => exact (h.leave (i := i) (c := .idle) rfl).congr rfl rfl rfl
  | stop i => exact (h.leave (i := i) (c := .stopping σ.seen) rfl).congr rfl rfl rfl
  | requestStop i => exact (h.leave (i := i) (c := .idle) rfl).congr rfl rfl rfl
  | spawn i hi => exact h.spawn ho hi
  | assign i w hi => exact h.assign (by rw [hi]; rfl) (h.created i w hi).2.1 true
  | join i w old hi => exact h.assign (by rw [hi]; rfl) (h.joined i w old hi).2 true
  | replace i w old hi hold =>
    obtain ⟨hw, hpresent, halone⟩ := h.created i w hi
    have hstop : Solo (σ.requestStop (some old)) := h.congr rfl rfl rfl
    refine hstop.setCall (fun _ j hj => h.one j i hj (by rw [hi]; rfl)) nofun fun w' old' he => ?_
    cases he
    refine ⟨?_, hpresent⟩
    -- it is not the worker of the call, which alone may not have ended
    have hne : old ≠ w := by
      rintro rfl
      exact hw hold
    cases hp : σ.phase old with
    | absent => exact absurd hp (h.present old hold)
    | done => exact hp
    | _ => exact absurd (halone old (by rw [hp]; rfl)) hne
  | move w p hm =>
    refine h.setPhase hm.unfinished.1 ?_
    rintro rfl
    cases hm.unfinished.2
  | finish w hw =>
    exact (h.setPhase (w := w) (p := .done) (by rw [hw]; rfl) nofun).congr rfl rfl rfl

end

/-! ## Calls -/

variable {σ σ' : Restart.State} {a : Restart.Action} {t : Thread} {k w : ℕ}

/-- The thread that takes a step. -/
def threadOf : Restart.Action → Thread
  | .connection (.isRunning t) | .connection (.alreadyRunning t) | .connection (.claim t)
  | .connection (.clear t) | .connection (.install t) | .connection (.refuse t) | .connection (.reset t)
  | .connection (.installThrows t) | .connection (.spawn t) | .connection (.spawnThrows t)
  | .connection (.replace t) | .connection (.join t) | .connection (.stop t) | .connection (.requestStop t) => t
  | .connection (.move w _) | .connection (.finish w) | .connection (.terminate w) => .opcua w
  | .polling (.callStart t _) | .polling (.start t) | .polling (.notify t) | .polling (.join t)
  | .polling (.callStop t) | .polling (.stop t) => t
  | .polling (.check k) | .polling (.polled k) | .polling (.lock k) | .polling (.wake k) => .poller k

theorem calls_of_ne (hs : Restart.Step σ a σ') (ht : threadOf a ≠ t) :
    σ'.connection.call t = σ.connection.call t ∧ σ'.polling.call t = σ.polling.call t ∧
      σ'.halfStopped t = σ.halfStopped t := by
  have hne : ∀ {A : Type} (f : Thread → A) (b : A), Function.update f (threadOf a) b t = f t := fun f b =>
    Function.update_of_ne (Ne.symm ht) b f
  cases hs with
  | connection hs ha =>
    cases hs.2 with
    | isRunning | alreadyRunning | move | finish | terminate => exact ⟨rfl, rfl, rfl⟩
    | stop => exact ⟨hne _ _, rfl, hne _ _⟩
    | claim | clear | install | refuse | reset | installThrows | spawn | spawnThrows | assign | replace | join
    | requestStop => exact ⟨hne _ _, rfl, rfl⟩
  | polling hs hterm ha =>
    cases hs with
    | poll | exit | polled | wake => exact ⟨rfl, rfl, rfl⟩
    | stop => exact ⟨rfl, hne _ _, hne _ _⟩
    | callStart | callStop | notify | destroy | join => exact ⟨rfl, hne _ _, rfl⟩
    | start t' n h =>
      refine ⟨rfl, (hne _ _).trans ?_, rfl⟩
      rw [Poller.start_call]
    | lock k h => exact ⟨rfl, by simp, rfl⟩

theorem mayCall_or_free (hs : Restart.Step σ a σ') (hf : σ.free (threadOf a)) :
    σ.mayCall (threadOf a) ∨ σ'.free (threadOf a) := by
  obtain ⟨hc, hp, hh⟩ := hf
  cases hs with
  | connection hs ha =>
    cases hs.2 with
    | isRunning | alreadyRunning | claim => exact .inl ha
    | move | finish | terminate => exact .inr ⟨hc, hp, hh⟩
    | stop i hi =>
      have htrue : σ.halfStopped i = true := ha
      rw [show σ.halfStopped i = false from hh] at htrue
      cases htrue
    | clear i hi | install i hi | refuse i hi | reset i hi | installThrows i hi | spawn i hi | spawnThrows i hi
    | requestStop i _ hi | assign i _ hi | replace i _ _ hi | join i _ _ hi => cases hc.symm.trans hi
  | polling hs hterm ha =>
    cases hs with
    | callStart | callStop => exact .inl ha
    | poll | exit | polled | wake => exact .inr ⟨hc, hp, hh⟩
    | lock k h => exact .inr ⟨hc, by simpa using hp, hh⟩
    | start i n hi | notify i hi | destroy i _ hi | join i _ hi | stop i hi => cases hp.symm.trans hi

/-! ## The polling workers -/

theorem polling_of_reach {ok : Restart.State → Restart.Action → Prop} (h : Runs.Reach Restart.Step ok .init σ) :
    Runs.Reachable Poller.Step .init σ.polling :=
  h.map State.polling fun _ _ _ _ hs => by
    cases hs with
    | connection => exact .inl rfl
    | polling hs ht ha => exact .inr ⟨_, trivial, hs⟩

/-- `polling_worker_` refers to the worker that was created last, -/
def Latest (σ : Poller.State Thread) : Prop := ∀ w, σ.pollingWorker = some w → w + 1 = σ.spawned

theorem latest_step {σ σ' : Poller.State Thread} {a : Poller.Action Thread} (h : Latest σ)
    (hs : Poller.Step σ a σ') : Latest σ' := by
  cases hs with
  | start i n hi =>
    unfold Poller.State.start
    split_ifs
    · exact h
    · intro w hw
      cases hw
      rfl
  | lock w hw => exact fun v hv => (h v (by simpa using hv)).trans (by simp)
  | _ => exact h

theorem phase_of_busy {τ : Poller.State Thread} {b : Poller.Action Thread} (hs : Poller.Step σ.polling b τ)
    (ha : σ.allows (.polling b)) (hk : ¬ σ.polling.spawned ≤ k)
    (hbusy : ¬ State.free ⟨σ.connection, τ, (Action.polling b).halfStopped σ.halfStopped⟩ (.poller k)) :
    τ.phase k = σ.polling.phase k := by
  -- a worker that takes a step of its own is in no call
  have hother : ∀ {v : ℕ} (p : Poller.Phase), σ.free (.poller v) →
      τ.call = σ.polling.call → (Action.polling b).halfStopped σ.halfStopped = σ.halfStopped →
        Function.update σ.polling.phase v p k = σ.polling.phase k := by
    intro v p hv hcall hhalf
    refine Function.update_of_ne ?_ _ _
    rintro rfl
    exact hbusy ⟨hv.1, (congrFun hcall _).trans hv.2.1, (congrFun hhalf _).trans hv.2.2⟩
  cases hs with
  | callStart | callStop | notify | destroy | join | stop => rfl
  | start i n hi =>
    show (σ.polling.start n).2.phase k = _
    unfold Poller.State.start
    split_ifs
    · rfl
    · exact Function.update_of_ne (fun he => hk he.ge) _ _
  | poll | exit | polled | wake => exact hother _ ha rfl rfl
  | lock v hv =>
    rw [Poller.State.noteWait_phase, Poller.State.lock_phase]
    exact hother _ ha (by simp) rfl

/-- A polling worker in a call is in its handlers, and joins only workers created after it. -/
structure Later (σ : Restart.State) : Prop where
  latest : Latest σ.polling
  busy : ∀ k, ¬ σ.free (.poller k) → σ.polling.phase k = .polling
  joins : ∀ k w, (σ.polling.call (.poller k)).waitsFor = some w → k < w

theorem later_init : Later .init := ⟨nofun, fun _ h => absurd ⟨rfl, rfl, rfl⟩ h, nofun⟩

theorem Later.not_fresh (h : Later σ) (hw : Poller.Workers σ.polling) (hk : ¬ σ.free (.poller k)) :
    ¬ σ.polling.spawned ≤ k := by
  intro hge
  have habsent := hw.fresh k hge
  rw [h.busy k hk] at habsent
  cases habsent

theorem Later.step (h : Later σ) (hw : Poller.Workers σ.polling) (hs : Restart.Step σ a σ') (hk : KeepsJoin σ a) :
    Later σ' where
  latest := by
    cases hs with
    | connection => exact h.latest
    | polling hs => exact latest_step h.latest hs
  busy k hbusy := by
    -- it has been in its handlers before
    have hphase : σ.polling.phase k = .polling := by
      by_cases hf : σ.free (.poller k)
      · by_cases ht : threadOf a = .poller k
        · rw [← ht] at hf hbusy
          have hmay := (mayCall_or_free hs hf).resolve_right hbusy
          rw [ht] at hmay
          exact hmay.1
        · obtain ⟨hc, hp, hh⟩ := calls_of_ne hs ht
          exact absurd ⟨hc.trans hf.1, hp.trans hf.2.1, hh.trans hf.2.2⟩ hbusy
      · exact h.busy k hf
    have hlt : ¬ σ.polling.spawned ≤ k := fun hge => by
      rw [hw.fresh k hge] at hphase
      cases hphase
    cases hs with
    | connection => exact hphase
    | polling hs hterm ha =>
      exact (phase_of_busy hs ha hlt hbusy).trans hphase
  joins k w hwait := by
    cases hs with
    | connection => exact h.joins k w hwait
    | polling hs hterm ha =>
      rcases hs.waitsFor hwait with ⟨rfl, hcurrent, htoken⟩ | hold
      · have hne : w ≠ k := by
          rintro rfl
          exact hk ⟨hcurrent, htoken⟩
        have hbusy : ¬ σ.free (.poller k) := by
          rintro ⟨-, hcall, -⟩
          cases hs with
          | start i n hi => cases hcall.symm.trans hi
        have hlt := h.not_fresh hw hbusy
        have hlast := h.latest w hcurrent
        omega
      · exact h.joins k w hold

/-! ## Waiting -/

/-- The thread joins another one that has not ended. -/
inductive Waits (σ : Restart.State) (t : Thread) : Thread → Prop
  | poller (k : ℕ) (h : σ.polling.call t = .joining k) (hd : σ.polling.phase k ≠ .done) : Waits σ t (.poller k)
  | opcua (v w : ℕ) (h : σ.connection.call t = .joining v w) (hd : σ.connection.phase w ≠ .done) :
    Waits σ t (.opcua w)

/-- The thread has a step. -/
def CanStep (σ : Restart.State) (t : Thread) : Prop := ∃ a σ', Restart.Step σ a σ' ∧ threadOf a = t

/-- No handler of a polling worker joins its own thread, and a `connect_async` begins when no other one is in
progress. -/
def Apart (σ : Restart.State) (a : Restart.Action) : Prop :=
  KeepsJoin σ a ∧ ∀ t, a = .connection (.claim t) → ∀ t', (σ.connection.call t').connects = false

/-- What the joins of `start_async` and of `start_polling_async` amount to. -/
structure NoDeadlock (σ : Restart.State) : Prop where
  /-- The OPC UA worker that is joined has ended. -/
  ended : ∀ t w, ¬ Waits σ t (.opcua w)
  /-- A polling worker waits only for one that was created later. -/
  later : ∀ k k', Waits σ (.poller k) (.poller k') → k < k'
  /-- No threads wait for each other, -/
  acyclic : ∀ t, ¬ Relation.TransGen (Waits σ) t t
  /-- and one of those that a call waits for can go on. -/
  progress : σ.connection.terminated = false → ∀ t, ¬ σ.free t →
    ∃ t', Relation.ReflTransGen (Waits σ) t t' ∧ CanStep σ t'

theorem canStep_of_call (hterm : σ.connection.terminated = false) (hbusy : ¬ σ.free t)
    (hw : ∀ t', ¬ Waits σ t t') : CanStep σ t := by
  cases hc : σ.connection.call t with
  | claimed => exact ⟨_, _, .connection ⟨hterm, .clear t hc⟩ trivial, rfl⟩
  | cleared => exact ⟨_, _, .connection ⟨hterm, .install t hc⟩ trivial, rfl⟩
  | refused => exact ⟨_, _, .connection ⟨hterm, .reset t hc⟩ trivial, rfl⟩
  | installed => exact ⟨_, _, .connection ⟨hterm, .spawn t hc⟩ trivial, rfl⟩
  | replacing w =>
    cases ho : σ.connection.opcuaThread with
    | none => exact ⟨_, _, .connection ⟨hterm, .assign t w hc ho⟩ trivial, rfl⟩
    | some old => exact ⟨_, _, .connection ⟨hterm, .replace t w old hc ho⟩ trivial, rfl⟩
  | joining v w =>
    have hd : σ.connection.phase w = .done := by
      by_contra hd
      exact hw _ (.opcua v w hc hd)
    exact ⟨_, _, .connection ⟨hterm, .join t v w hc hd⟩ trivial, rfl⟩
  | stopping seen => exact ⟨_, _, .connection ⟨hterm, .requestStop t seen hc⟩ trivial, rfl⟩
  | idle =>
    cases hp : σ.polling.call t with
    | starting n => exact ⟨_, _, .polling (.start t n hp) hterm trivial, rfl⟩
    | notifying stopped =>
      cases stopped with
      | none => exact ⟨_, _, .polling (.notify t hp) hterm trivial, rfl⟩
      | some old => exact ⟨_, _, .polling (.destroy t old hp) hterm trivial, rfl⟩
    | joining k =>
      have hd : σ.polling.phase k = .done := by
        by_contra hd
        exact hw _ (.poller k hp hd)
      exact ⟨_, _, .polling (.join t k hp hd) hterm trivial, rfl⟩
    | stopping => exact ⟨_, _, .polling (.stop t hp) hterm trivial, rfl⟩
    | idle =>
      have hh : σ.halfStopped t = true := by
        by_contra hh
        exact hbusy ⟨hc, hp, Bool.eq_false_of_not_eq_true hh⟩
      exact ⟨_, _, .connection ⟨hterm, .stop t hc⟩ hh, rfl⟩

theorem canStep_of_worker (hterm : σ.connection.terminated = false) (hf : σ.free (.poller k))
    (hd : σ.polling.phase k ≠ .done) (ha : σ.polling.phase k ≠ .absent) : CanStep σ (.poller k) := by
  cases hp : σ.polling.phase k with
  | absent => exact absurd hp ha
  | done => exact absurd hp hd
  | checking =>
    cases ht : σ.polling.token k with
    | false => exact ⟨_, _, .polling (.poll k hp ht) hterm hf, rfl⟩
    | true => exact ⟨_, _, .polling (.exit k hp ht) hterm hf, rfl⟩
  | polling => exact ⟨_, _, .polling (.polled k hp) hterm hf, rfl⟩
  | locking => exact ⟨_, _, .polling (.lock k hp) hterm hf, rfl⟩
  | waiting interval revision => exact ⟨_, _, .polling (.wake k interval revision hp) hterm hf, rfl⟩

/-- How far the waits of a thread can go. -/
def waitRank (σ : Restart.State) : Thread → ℕ
  | .poller k => σ.polling.spawned - k
  | .user _ | .opcua _ => σ.polling.spawned + 1

/-- A worker that is joined has been created. -/
theorem lt_spawned_of_joining (hw : Poller.Workers σ.polling) (hc : σ.polling.call t = .joining k) :
    k < σ.polling.spawned := by
  by_contra hge
  exact (hw.moved t k (by rw [hc]; rfl)).2 (hw.fresh k (not_lt.mp hge))

/-- **The joins cannot deadlock** in a run whose steps meet `Apart`. -/
theorem joins_never_deadlock (h : Runs.Reach Restart.Step Apart .init σ) : NoDeadlock σ := by
  have hworkers := Poller.workers_of_reach (polling_of_reach h)
  have hlater : Later σ := h.invariant later_init fun _ _ _ hr hi hk hs =>
    hi.step (Poller.workers_of_reach (polling_of_reach hr)) hs hk.1
  have hsolo : Solo σ.connection := by
    refine h.invariant (I := fun σ => Solo σ.connection) solo_init fun s a s' hr hi hk hs => ?_
    cases hs with
    | connection hs ha =>
      exact solo_step (Connection.owned_of_reach (connection_of_reach hr)) hi hs.2 fun i he =>
        hk.2 i (by rw [he])
    | polling => exact hi
  have hended : ∀ t w, ¬ Waits σ t (.opcua w) := by
    intro t w hw
    cases hw with
    | opcua v _ hc hd => exact hd (hsolo.joined t v w hc).1
  have hjoins : ∀ k k', Waits σ (.poller k) (.poller k') → k < k' := by
    intro k k' hw
    cases hw with
    | poller _ hc hd => exact hlater.joins k k' (by rw [hc]; rfl)
  have hrank : ∀ t t', Waits σ t t' → waitRank σ t' < waitRank σ t := by
    intro t t' hw
    cases hw with
    | opcua v w hc hd => exact absurd (.opcua v w hc hd) (hended t w)
    | poller k hc hd =>
      have hlt := lt_spawned_of_joining hworkers hc
      cases t with
      | user | opcua => exact Nat.lt_succ_of_le (Nat.sub_le _ _)
      | poller k₀ =>
        have hk := hjoins k₀ k (.poller k hc hd)
        simp only [waitRank]
        omega
  refine ⟨hended, hjoins, Runs.not_transGen_self _ hrank, fun hterm t hbusy => ?_⟩
  obtain ⟨t', hchain, hend⟩ := Runs.exists_end _ hrank t
  refine ⟨t', hchain, ?_⟩
  by_cases hf : σ.free t'
  · -- it is a worker that another thread waits for
    rcases Relation.ReflTransGen.cases_tail hchain with rfl | ⟨u, -, hu⟩
    · exact absurd hf hbusy
    · cases hu with
      | opcua v w hc hd => exact absurd (.opcua v w hc hd) (hended u w)
      | poller k hc hd =>
        exact canStep_of_worker hterm hf hd (hworkers.moved u k (by rw [hc]; rfl)).2
  · exact canStep_of_call hterm hf hend

/-! ## Two calls that overlap -/

/-- A handler of a polling worker and a user call `connect_async` at the same time, and the worker of the
handler ends before the worker of the user is in place: the handler joins the latter, one of whose handlers
stops and restarts the polling. -/
theorem not_forall_acyclic : ¬ ∀ σ : Restart.State, Runs.Reach Restart.Step KeepsJoin .init σ →
    ∀ t, ¬ Relation.TransGen (Waits σ) t t := by
  intro h
  have h₀ : Runs.Reach Restart.Step KeepsJoin .init Restart.State.init := .init
  have h₁ := h₀.step (.polling (a := .callStart (.user 0) 50) (.callStart _ _ rfl (by decide)) rfl
    ⟨trivial, rfl, rfl, rfl⟩) trivial
  have h₂ := h₁.step (.polling (a := .start (.user 0)) (.start _ 50 rfl) rfl trivial) trivial
  have h₃ := h₂.step (.polling (a := .notify (.user 0)) (.notify _ rfl) rfl trivial) trivial
  have h₄ := h₃.step (.polling (a := .check 0) (.poll _ rfl rfl) rfl ⟨rfl, rfl, rfl⟩) trivial
  -- the handler creates OPC UA worker 0, which ends
  have h₅ := h₄.step (.connection (a := .claim (.poller 0)) ⟨rfl, .claim _ rfl rfl⟩ ⟨rfl, rfl, rfl, rfl⟩) trivial
  have h₆ := h₅.step (.connection (a := .clear (.poller 0)) ⟨rfl, .clear _ rfl⟩ trivial) trivial
  have h₇ := h₆.step (.connection (a := .install (.poller 0)) ⟨rfl, .install _ rfl⟩ trivial) trivial
  have h₈ := h₇.step (.connection (a := .spawn (.poller 0)) ⟨rfl, .spawn _ rfl⟩ trivial) trivial
  have h₉ := h₈.step (.connection (a := .move 0 .failing) ⟨rfl, .move 0 _ .connectThrows⟩ ⟨rfl, rfl, rfl⟩) trivial
  have h₁₀ := h₉.step (.connection (a := .move 0 .leaving) ⟨rfl, .move 0 _ .handled⟩ ⟨rfl, rfl, rfl⟩) trivial
  have h₁₁ := h₁₀.step (.connection (a := .finish 0) ⟨rfl, .finish 0 rfl⟩ ⟨rfl, rfl, rfl⟩) trivial
  -- the user creates worker 1
  have h₁₂ := h₁₁.step (.connection (a := .claim (.user 1)) ⟨rfl, .claim _ rfl rfl⟩ ⟨trivial, rfl, rfl, rfl⟩) trivial
  have h₁₃ := h₁₂.step (.connection (a := .clear (.user 1)) ⟨rfl, .clear _ rfl⟩ trivial) trivial
  have h₁₄ := h₁₃.step (.connection (a := .install (.user 1)) ⟨rfl, .install _ rfl⟩ trivial) trivial
  have h₁₅ := h₁₄.step (.connection (a := .spawn (.user 1)) ⟨rfl, .spawn _ rfl⟩ trivial) trivial
  have h₁₆ := h₁₅.step (.connection (a := .replace (.user 1)) ⟨rfl, .assign _ 1 rfl rfl⟩ trivial) trivial
  -- the handler joins it
  have h₁₇ := h₁₆.step (.connection (a := .replace (.poller 0)) ⟨rfl, .replace _ 0 1 rfl rfl⟩ trivial) trivial
  -- a handler of worker 1 joins the polling worker
  have h₁₈ := h₁₇.step (.polling (a := .callStop (.opcua 1)) (.callStop _ rfl) rfl ⟨rfl, rfl, rfl, rfl⟩) trivial
  have h₁₉ := h₁₈.step (.polling (a := .stop (.opcua 1)) (.stop _ rfl) rfl trivial) trivial
  have h₂₀ := h₁₉.step (.connection (a := .stop (.opcua 1)) ⟨rfl, .stop _ rfl⟩ rfl) trivial
  have h₂₁ := h₂₀.step (.connection (a := .requestStop (.opcua 1)) ⟨rfl, .requestStop _ false rfl⟩ trivial) trivial
  have h₂₂ := h₂₁.step (.polling (a := .callStart (.opcua 1) 50) (.callStart _ _ rfl (by decide)) rfl
    ⟨rfl, rfl, rfl, rfl⟩) trivial
  have h₂₃ := h₂₂.step (.polling (a := .start (.opcua 1)) (.start _ 50 rfl) rfl trivial) trivial
  have h₂₄ := h₂₃.step (.polling (a := .notify (.opcua 1)) (.destroy _ 0 rfl) rfl trivial) trivial
  exact h _ h₂₄ (.poller 0) (.tail (.single (.opcua 0 1 rfl nofun)) (.poller 0 rfl nofun))

/-- `joins_never_deadlock` for a user that restarts the polling while a frame is handled. -/
theorem joins_never_deadlock_restarted : ∃ σ : Restart.State, Waits σ (.user 0) (.poller 0) ∧ NoDeadlock σ := by
  have h₀ : Runs.Reach Restart.Step Apart .init Restart.State.init := .init
  have h₁ := h₀.step (.polling (a := .callStart (.user 0) 50) (.callStart _ _ rfl (by decide)) rfl
    ⟨trivial, rfl, rfl, rfl⟩) ⟨trivial, nofun⟩
  have h₂ := h₁.step (.polling (a := .start (.user 0)) (.start _ 50 rfl) rfl trivial) ⟨trivial, nofun⟩
  have h₃ := h₂.step (.polling (a := .notify (.user 0)) (.notify _ rfl) rfl trivial) ⟨trivial, nofun⟩
  have h₄ := h₃.step (.polling (a := .check 0) (.poll _ rfl rfl) rfl ⟨rfl, rfl, rfl⟩) ⟨trivial, nofun⟩
  have h₅ := h₄.step (.polling (a := .callStop (.user 0)) (.callStop _ rfl) rfl ⟨trivial, rfl, rfl, rfl⟩)
    ⟨trivial, nofun⟩
  have h₆ := h₅.step (.polling (a := .stop (.user 0)) (.stop _ rfl) rfl trivial) ⟨trivial, nofun⟩
  have h₇ := h₆.step (.connection (a := .stop (.user 0)) ⟨rfl, .stop _ rfl⟩ rfl) ⟨trivial, nofun⟩
  have h₈ := h₇.step (.connection (a := .requestStop (.user 0)) ⟨rfl, .requestStop _ false rfl⟩ trivial)
    ⟨trivial, nofun⟩
  have h₉ := h₈.step (.polling (a := .callStart (.user 0) 50) (.callStart _ _ rfl (by decide)) rfl
    ⟨trivial, rfl, rfl, rfl⟩) ⟨trivial, nofun⟩
  have h₁₀ := h₉.step (.polling (a := .start (.user 0)) (.start _ 50 rfl) rfl trivial) ⟨trivial, nofun⟩
  have h₁₁ := h₁₀.step (.polling (a := .notify (.user 0)) (.destroy _ 0 rfl) rfl trivial) ⟨trivial, nofun⟩
  refine ⟨_, ?_, joins_never_deadlock h₁₁⟩
  exact .poller 0 rfl nofun

end TPC.System.Joins
