import TPC.Lib.Runs

/-!
# The subscription

`Subscription::create_subscription`, the response that `create_monitored_items` answers to, the responses
of the monitored items and `release`. Any number of requests may be outstanding, and what comes back
comes in any order.

* `Request`, `State`: the members of `Subscription`, and the requests as they were sent;
* `Action`, **`Step`**;
* `Monitors`, `HoldsCreated`: each subscription monitors its own nodes, and the members name the items of
  the current one;
* `Keeps`, **`monitors_requested`**: when they do;
* `InTurn`, **`monitors_of_inTurn`**: they do when one subscription is requested after the other;
* `not_forall_monitors`: a request that overtakes the response to an earlier one.
-/

namespace TPC.System.Subscription

/-- What has become of a `CreateSubscription` request. -/
inductive Status
  | absent
  | outstanding
  | refused
  /-- The response was good, with this subscription id. -/
  | live (id : ℕ)
  /-- The callback of the deletion has come. -/
  | deleted (id : ℕ)
  deriving DecidableEq, Repr

/-- The response was good. -/
def Status.isGood : Status → Bool
  | live _ | deleted _ => true
  | _ => false

/-- A request, and what has been done on its subscription. -/
structure Request (N : Type) where
  /-- The node list passed to `create_subscription`. -/
  nodes : List N
  status : Status
  /-- The nodes of the monitored items that have been requested, -/
  items : List N
  /-- those of them that have not been answered, -/
  unanswered : List N
  /-- and the ids of those that have been created. -/
  created : List ℕ

/-- What the handlers of `info_occurred_` and `error_occurred_` are given. -/
inductive Event
  | info (text : String)
  | error (text : String)
  deriving DecidableEq, Repr

variable {N : Type}

/-- The members `subscription_id_`, `monitored_item_ids_` and `node_ids_`; then the history. -/
structure State (N : Type) where
  subscriptionId : Option ℕ
  monitoredItemIds : List ℕ
  nodeIds : List N
  sent : ℕ
  request : ℕ → Request N
  events : List Event

/-- `Subscription::create` has returned. -/
def State.init : State N := ⟨none, [], [], 0, fun _ => ⟨[], .absent, [], [], []⟩, []⟩

namespace State

/-- `create_subscription`. `sent`: `createSubscriptionAsync` does not throw. -/
def createSubscription (σ : State N) (nodes : List N) (sent : Bool) : State N :=
  let σ := { σ with nodeIds := nodes }
  if sent then
    { σ with
      sent := σ.sent + 1
      request := Function.update σ.request σ.sent ⟨nodes, .outstanding, [], [], []⟩ }
  else σ

/-- The nodes for which `createMonitoredItemDataChangeAsync` is called, and returns. It may throw for
one of them, which ends the loop. -/
def accepted (σ : State N) : Option (ℕ × String) → List N
  | none => σ.nodeIds
  | some (n, _) => σ.nodeIds.take n

/-- `create_monitored_items` with a good response. -/
def createMonitoredItems (σ : State N) (k id : ℕ) (throws : Option (ℕ × String)) : State N :=
  { σ with
    subscriptionId := some id
    request := Function.update σ.request k { σ.request k with
      status := .live id
      items := σ.accepted throws
      unanswered := σ.accepted throws }
    events := σ.events ++ throws.toList.map fun (_, what) => .error what }

/-- `create_monitored_items` with a bad response. -/
def refuse (σ : State N) (k : ℕ) (what : String) : State N :=
  { σ with
    request := Function.update σ.request k { σ.request k with status := .refused }
    events := σ.events ++ [.error what] }

/-- The response to the request of an item. `handlers`: the handlers of `info_occurred_` throw. -/
def itemCreated [ToString N] (σ : State N) (k i : ℕ) (node : N) (result : Except String ℕ)
    (handlers : Option String) : State N :=
  let r := { σ.request k with unanswered := (σ.request k).unanswered.eraseIdx i }
  let cannot (what : String) : Event := .error ("Cannot monitor " ++ toString node ++ ": " ++ what)
  match result with
  | .ok itemId =>
    { σ with
      monitoredItemIds := σ.monitoredItemIds ++ [itemId]
      request := Function.update σ.request k { r with created := r.created ++ [itemId] }
      events := σ.events ++ .info ("Monitored item was created: " ++ toString node) ::
        handlers.toList.map cannot }
  | .error what =>
    { σ with request := Function.update σ.request k r, events := σ.events ++ [cannot what] }

def release (σ : State N) (id : ℕ) : State N :=
  if σ.subscriptionId = some id then { σ with subscriptionId := none, monitoredItemIds := [] } else σ

/-- The callback of the deletion of the subscription of request `k`. -/
def deleted (σ : State N) (k id : ℕ) : State N :=
  { σ with request := Function.update σ.request k { σ.request k with status := .deleted id } }.release id

end State

inductive Action (N : Type)
  | create (nodes : List N) (sent : Bool)
  | good (k id : ℕ) (throws : Option (ℕ × String))
  | bad (k : ℕ) (what : String)
  | item (k i : ℕ) (result : Except String ℕ) (handlers : Option String)
  | deleted (k : ℕ)

/-- One step. The server gives a new subscription an id that no other one has at that moment. -/
inductive Step [ToString N] (σ : State N) : Action N → State N → Prop
  | create (nodes : List N) (sent : Bool) :
    Step σ (.create nodes sent) (σ.createSubscription nodes sent)
  | good (k id : ℕ) (throws : Option (ℕ × String)) (h : (σ.request k).status = .outstanding)
    (hid : ∀ j, (σ.request j).status ≠ .live id) (ht : ∀ t ∈ throws, t.1 < σ.nodeIds.length) :
    Step σ (.good k id throws) (σ.createMonitoredItems k id throws)
  | bad (k : ℕ) (what : String) (h : (σ.request k).status = .outstanding) :
    Step σ (.bad k what) (σ.refuse k what)
  | item (k i : ℕ) (node : N) (result : Except String ℕ) (handlers : Option String)
    (h : (σ.request k).unanswered[i]? = some node) :
    Step σ (.item k i result handlers) (σ.itemCreated k i node result handlers)
  | deleted (k id : ℕ) (h : (σ.request k).status = .live id) : Step σ (.deleted k) (σ.deleted k id)

variable {σ σ' : State N} {a : Action N}

/-! ## What holds in every run -/

/-- The requests are numbered as they are sent, and no two live subscriptions have one id. -/
structure Numbered (σ : State N) : Prop where
  fresh : ∀ k, σ.sent ≤ k → (σ.request k).status = .absent
  unique : ∀ j k id, (σ.request j).status = .live id → (σ.request k).status = .live id → j = k
  /-- Nothing is done on a subscription that does not exist. -/
  bare : ∀ k, (σ.request k).status.isGood = false →
    (σ.request k).unanswered = [] ∧ (σ.request k).created = []

theorem Numbered.update (h : Numbered σ) {k : ℕ} {r : Request N} (hk : k < σ.sent)
    (hr : ∀ j id, r.status = .live id → (σ.request j).status = .live id → j = k)
    (hb : r.status.isGood = false → r.unanswered = [] ∧ r.created = []) {τ : State N}
    (hsent : τ.sent = σ.sent) (hτ : τ.request = Function.update σ.request k r) : Numbered τ := by
  constructor
  case fresh =>
    intro j hj
    rw [hτ, Function.update_of_ne (by omega)]
    exact h.fresh j (hsent ▸ hj)
  case unique =>
    intro i j id hi hj
    rw [hτ] at hi hj
    by_cases hik : i = k <;> by_cases hjk : j = k
    · exact hik.trans hjk.symm
    · subst hik
      rw [Function.update_self] at hi
      rw [Function.update_of_ne hjk] at hj
      exact (hr j id hi hj).symm
    · subst hjk
      rw [Function.update_self] at hj
      rw [Function.update_of_ne hik] at hi
      exact hr i id hj hi
    · rw [Function.update_of_ne hik] at hi
      rw [Function.update_of_ne hjk] at hj
      exact h.unique i j id hi hj
  case bare =>
    intro j hj
    rw [hτ] at hj ⊢
    by_cases hjk : j = k
    · subst hjk
      rw [Function.update_self] at hj ⊢
      exact hb hj
    · rw [Function.update_of_ne hjk] at hj ⊢
      exact h.bare j hj

theorem Numbered.lt_sent (h : Numbered σ) {k : ℕ} (hk : (σ.request k).status ≠ .absent) : k < σ.sent := by
  by_contra hge
  exact hk (h.fresh k (Nat.not_lt.mp hge))

theorem Numbered.isGood_of_unanswered (h : Numbered σ) {k i : ℕ} {node : N}
    (hi : (σ.request k).unanswered[i]? = some node) : (σ.request k).status.isGood = true := by
  by_contra hk
  rw [(h.bare k (Bool.eq_false_of_not_eq_true hk)).1] at hi
  cases hi

theorem release_request (id : ℕ) : (σ.release id).request = σ.request := by
  unfold State.release
  split_ifs <;> rfl

theorem release_sent (id : ℕ) : (σ.release id).sent = σ.sent := by
  unfold State.release
  split_ifs <;> rfl

section Step

variable [ToString N]

theorem itemCreated_request (k i : ℕ) (node : N) (result : Except String ℕ) (handlers : Option String) :
    ∃ r, (σ.itemCreated k i node result handlers).request = Function.update σ.request k r ∧
      r.status = (σ.request k).status ∧ r.items = (σ.request k).items ∧ r.nodes = (σ.request k).nodes := by
  cases result <;> exact ⟨_, rfl, rfl, rfl, rfl⟩

theorem numbered_step (h : Numbered σ) (hs : Step σ a σ') : Numbered σ' := by
  cases hs with
  | create nodes sent =>
    cases sent with
    | false => exact ⟨h.fresh, h.unique, h.bare⟩
    | true =>
      have hnew : Numbered { σ with sent := σ.sent + 1 } :=
        ⟨fun k hk => h.fresh k (by simp only at hk; omega), h.unique, h.bare⟩
      exact hnew.update (k := σ.sent) (r := ⟨nodes, .outstanding, [], [], []⟩) (Nat.lt_succ_self _)
        (by intro _ _ hl; cases hl) (fun _ => ⟨rfl, rfl⟩) rfl rfl
  | good k id throws hk hid ht =>
    refine h.update (h.lt_sent (by rw [hk]; decide)) (fun j i hi hj => ?_) (by intro hb; cases hb) rfl rfl
    cases hi
    exact absurd hj (hid j)
  | bad k what hk =>
    refine h.update (h.lt_sent (by rw [hk]; decide)) (by intro _ _ hl; cases hl) (fun _ => ?_) rfl rfl
    exact h.bare k (by rw [hk]; rfl)
  | item k i node result handlers hi =>
    obtain ⟨r, hr, hstatus, -, -⟩ := itemCreated_request (σ := σ) k i node result handlers
    have hgood := h.isGood_of_unanswered hi
    refine h.update (r := r) (h.lt_sent fun ha => ?_) (fun j id hl hj => ?_) (fun hb => ?_) ?_ hr
    · rw [ha] at hgood
      cases hgood
    · exact h.unique j k id hj (hstatus ▸ hl)
    · rw [hstatus, hgood] at hb
      cases hb
    · cases result <;> rfl
  | deleted k id hk =>
    refine h.update (h.lt_sent (by rw [hk]; nofun)) (r := { σ.request k with status := .deleted id })
      (by intro _ _ hl; cases hl) (by intro hb; cases hb) ?_ ?_
    · exact release_sent id
    · exact release_request id

theorem numbered_of_reach {ok : State N → Action N → Prop} (h : Runs.Reach Step ok .init σ) :
    Numbered σ :=
  h.invariant ⟨fun _ _ => rfl, nofun, fun _ _ => ⟨rfl, rfl⟩⟩
    fun _ _ _ _ hi _ hs => numbered_step hi hs

end Step

/-! ## The nodes and the ids of each subscription -/

/-- The items requested on a subscription are those of the nodes passed with its own request. -/
def Monitors (σ : State N) : Prop :=
  ∀ k, (σ.request k).status.isGood = true → (σ.request k).items = (σ.request k).nodes

/-- `monitored_item_ids_` holds the ids created on the one subscription that `subscription_id_` names,
and nothing when there is none. -/
def HoldsCreated (σ : State N) : Prop :=
  match σ.subscriptionId with
  | none => σ.monitoredItemIds = []
  | some id => ∃ k, (σ.request k).status = .live id ∧
      (∀ j, (σ.request j).status = .live id → j = k) ∧ σ.monitoredItemIds = (σ.request k).created

/-- A good response comes while `node_ids_` is what its request was sent with, the client accepts the
items, and `monitored_item_ids_` is empty; an item is created on the subscription that
`subscription_id_` names. -/
def Keeps (σ : State N) : Action N → Prop
  | .good k _ throws => σ.accepted throws = (σ.request k).nodes ∧ σ.monitoredItemIds = []
  | .item k _ (.ok _) _ => ∃ id, (σ.request k).status = .live id ∧ σ.subscriptionId = some id
  | _ => True

theorem monitors_update {k : ℕ} {r : Request N} {τ : State N}
    (hτ : τ.request = Function.update σ.request k r) :
    Monitors τ ↔ (r.status.isGood = true → r.items = r.nodes) ∧
      ∀ j, j ≠ k → (σ.request j).status.isGood = true → (σ.request j).items = (σ.request j).nodes := by
  constructor
  · intro h
    refine ⟨fun hr => ?_, fun j hj hg => ?_⟩
    · simpa [hτ] using h k (by simpa [hτ] using hr)
    · simpa [hτ, hj] using h j (by simpa [hτ, hj] using hg)
  · rintro ⟨hk, hother⟩ j hg
    by_cases hj : j = k
    · subst hj
      rw [hτ, Function.update_self] at hg ⊢
      exact hk hg
    · rw [hτ, Function.update_of_ne hj] at hg ⊢
      exact hother j hj hg

theorem Monitors.update (h : Monitors σ) {k : ℕ} {r : Request N} {τ : State N}
    (hτ : τ.request = Function.update σ.request k r)
    (hr : r.status.isGood = true → r.items = r.nodes) : Monitors τ :=
  (monitors_update hτ).mpr ⟨hr, fun j _ => h j⟩

theorem HoldsCreated.congr (h : HoldsCreated σ) {τ : State N}
    (hid : τ.subscriptionId = σ.subscriptionId) (hitems : τ.monitoredItemIds = σ.monitoredItemIds)
    (hlive : ∀ k id, σ.subscriptionId = some id →
      ((τ.request k).status = .live id ↔ (σ.request k).status = .live id))
    (hcreated : ∀ k id, (σ.request k).status = .live id → (τ.request k).created = (σ.request k).created) :
    HoldsCreated τ := by
  unfold HoldsCreated at h ⊢
  rw [hid, hitems]
  cases hs : σ.subscriptionId with
  | none => rwa [hs] at h
  | some id =>
    simp only [hs] at h ⊢
    obtain ⟨k, hk, hunique, hcr⟩ := h
    refine ⟨k, (hlive k id hs).mpr hk, fun j hj => hunique j ((hlive j id hs).mp hj), ?_⟩
    rw [hcreated k id hk, hcr]

theorem HoldsCreated.update (h : HoldsCreated σ) {k : ℕ} {r : Request N} {τ : State N}
    (hτ : τ.request = Function.update σ.request k r) (hid : τ.subscriptionId = σ.subscriptionId)
    (hitems : τ.monitoredItemIds = σ.monitoredItemIds)
    (hlive : ∀ id, σ.subscriptionId = some id → (r.status = .live id ↔ (σ.request k).status = .live id))
    (hcreated : ∀ id, (σ.request k).status = .live id → r.created = (σ.request k).created) : HoldsCreated τ := by
  refine h.congr hid hitems (fun j id hs => ?_) fun j id hj => ?_
  · by_cases hjk : j = k
    · subst hjk
      rw [hτ, Function.update_self]
      exact hlive id hs
    · rw [hτ, Function.update_of_ne hjk]
  · by_cases hjk : j = k
    · subst hjk
      rw [hτ, Function.update_self]
      exact hcreated id hj
    · rw [hτ, Function.update_of_ne hjk]

theorem HoldsCreated.monitoredItemIds_eq (h : HoldsCreated σ) {k id : ℕ} (hid : σ.subscriptionId = some id)
    (hk : (σ.request k).status = .live id) : σ.monitoredItemIds = (σ.request k).created := by
  unfold HoldsCreated at h
  simp only [hid] at h
  obtain ⟨j, -, hunique, hcr⟩ := h
  rw [hunique k hk, hcr]

variable [ToString N]

/-- An item that is created belongs to the subscription that `subscription_id_` names, or the members
hold an id too many. -/
theorem holdsCreated_itemCreated (hn : Numbered σ) (hh : HoldsCreated σ) (k i : ℕ) (node : N) (itemId : ℕ)
    (handlers : Option String) : HoldsCreated (σ.itemCreated k i node (.ok itemId) handlers) ↔
      ∃ id, (σ.request k).status = .live id ∧ σ.subscriptionId = some id := by
  have hstatus : ∀ j, ((σ.itemCreated k i node (.ok itemId) handlers).request j).status =
      (σ.request j).status := by
    intro j
    by_cases hjk : j = k
    · subst hjk
      simp [State.itemCreated]
    · simp [State.itemCreated, hjk]
  have hids : (σ.itemCreated k i node (.ok itemId) handlers).monitoredItemIds =
      σ.monitoredItemIds ++ [itemId] := rfl
  constructor
  · intro h
    cases hs : σ.subscriptionId with
    | none =>
      simp [HoldsCreated, State.itemCreated, hs] at h
    | some id =>
      have h' := h
      unfold HoldsCreated at h'
      simp only [State.itemCreated, hs] at h'
      obtain ⟨j, hj, -⟩ := h'
      have hj' : (σ.request j).status = .live id := (hstatus j).symm.trans hj
      refine ⟨id, ?_, rfl⟩
      by_contra hk
      have hjk : j ≠ k := by
        rintro rfl
        exact hk hj'
      have hcr := h.monitoredItemIds_eq hs hj
      rw [hids, hh.monitoredItemIds_eq hs hj'] at hcr
      simp [State.itemCreated, hjk] at hcr
  · rintro ⟨id, hk, hs⟩
    unfold HoldsCreated
    simp only [State.itemCreated, hs]
    refine ⟨k, by simpa using hk, fun j hj => ?_, ?_⟩
    · exact hn.unique j k id ((hstatus j).symm.trans hj) hk
    · simp [hh.monitoredItemIds_eq hs hk]

omit [ToString N] in
theorem holdsCreated_deleted (hh : HoldsCreated σ) {k id : ℕ}
    (hk : (σ.request k).status = .live id) : HoldsCreated (σ.deleted k id) := by
  by_cases hs : σ.subscriptionId = some id
  · simp [HoldsCreated, State.deleted, State.release, hs]
  · have hrelease : σ.deleted k id = { σ with
        request := Function.update σ.request k { σ.request k with status := .deleted id } } := if_neg hs
    rw [hrelease]
    refine hh.update rfl rfl rfl (fun id' hid' => ?_) fun _ _ => rfl
    have hne : id ≠ id' := by
      rintro rfl
      exact hs hid'
    simp [hk, hne]

/-- **One step**: from a state with the property, `Keeps` is what it takes to have it afterwards. -/
theorem keeps_iff (hn : Numbered σ) (hm : Monitors σ) (hh : HoldsCreated σ) (hs : Step σ a σ') :
    Monitors σ' ∧ HoldsCreated σ' ↔ Keeps σ a := by
  cases hs with
  | create nodes sent =>
    refine iff_of_true ?_ trivial
    cases sent with
    | false => exact ⟨hm, hh⟩
    | true =>
      have habsent := hn.fresh σ.sent le_rfl
      refine ⟨hm.update (k := σ.sent) rfl nofun, hh.update (k := σ.sent) rfl rfl rfl (fun id _ => ?_) fun id hk => ?_⟩
      · rw [habsent]
        exact iff_of_false nofun nofun
      · rw [habsent] at hk
        cases hk
  | good k id throws hk hid ht =>
    have hcreated : (σ.request k).created = [] := (hn.bare k (by rw [hk]; rfl)).2
    have hmonitors : Monitors (σ.createMonitoredItems k id throws) ↔
        σ.accepted throws = (σ.request k).nodes :=
      (monitors_update rfl).trans ⟨fun h => h.1 rfl, fun h => ⟨fun _ => h, fun j _ => hm j⟩⟩
    have hholds : HoldsCreated (σ.createMonitoredItems k id throws) ↔ σ.monitoredItemIds = [] := by
      constructor
      · rintro ⟨j, hj, hunique, hids⟩
        obtain rfl : k = j := hunique k (by simp [State.createMonitoredItems])
        simpa [State.createMonitoredItems, hcreated] using hids
      · intro hids
        refine ⟨k, by simp [State.createMonitoredItems], fun j hj => ?_, ?_⟩
        · by_contra hjk
          exact hid j (by simpa [State.createMonitoredItems, hjk] using hj)
        · simpa [State.createMonitoredItems, hcreated] using hids
    exact and_congr hmonitors hholds
  | bad k what hk =>
    refine iff_of_true ⟨hm.update rfl nofun, hh.update rfl rfl rfl (fun id _ => ?_) fun _ _ => rfl⟩ trivial
    rw [hk]
    exact iff_of_false nofun nofun
  | item k i node result handlers hi =>
    obtain ⟨r, hr, hstatus, hitems, hnodes⟩ := itemCreated_request (σ := σ) k i node result handlers
    have hmonitors : Monitors (σ.itemCreated k i node result handlers) :=
      hm.update hr fun hg => hitems.trans ((hm k (hstatus ▸ hg)).trans hnodes.symm)
    cases result with
    | ok itemId => exact (and_iff_right hmonitors).trans (holdsCreated_itemCreated hn hh k i node itemId handlers)
    | error what =>
      exact iff_of_true ⟨hmonitors, hh.update rfl rfl rfl (fun _ _ => Iff.rfl) fun _ _ => rfl⟩ trivial
  | deleted k id hk =>
    refine iff_of_true ⟨hm.update (release_request id) fun _ => ?_, holdsCreated_deleted hh hk⟩ trivial
    exact hm k (by rw [hk]; rfl)

/-- **Each subscription monitors what it was requested for**, and the members hold the items of the one
that they name, in a run whose steps meet `Keeps`; and a step that does not meet it is one that breaks
one of the two. -/
theorem monitors_requested (h : Runs.Reach Step Keeps .init σ) :
    (Monitors σ ∧ HoldsCreated σ) ∧
      ∀ a σ', Step σ a σ' → (Monitors σ' ∧ HoldsCreated σ' ↔ Keeps σ a) := by
  have hmh : Monitors σ ∧ HoldsCreated σ := by
    refine h.invariant (I := fun σ => Monitors σ ∧ HoldsCreated σ) ⟨nofun, rfl⟩ fun s a s' hr hi hk hs => ?_
    exact (keeps_iff (numbered_of_reach hr) hi.1 hi.2 hs).mpr hk
  exact ⟨hmh, fun a σ' hs => keeps_iff (numbered_of_reach h) hmh.1 hmh.2 hs⟩

/-- `monitors_requested` for a subscription of two nodes, the first of which has been created. -/
theorem monitors_requested_created : ∃ σ : State ℕ, σ.subscriptionId = some 7 ∧
    σ.monitoredItemIds = [5] ∧ (σ.request 0).items = [1, 2] ∧ Monitors σ ∧ HoldsCreated σ := by
  have h₀ : Runs.Reach Step Keeps (.init : State ℕ) .init := .init
  have h₁ := h₀.step (.create [1, 2] true) trivial
  have h₂ := h₁.step (.good 0 7 none rfl (fun j => ?_) nofun) ⟨rfl, rfl⟩
  · have h₃ := h₂.step (.item 0 0 1 (.ok 5) none rfl) ⟨7, rfl, rfl⟩
    exact ⟨_, rfl, rfl, rfl, (monitors_requested h₃).1⟩
  · by_cases hj : j = 0 <;> simp [State.createSubscription, State.init, Function.update, hj]

/-! ## One subscription after the other -/

/-- A subscription is requested when every former request has been answered and every former subscription
deleted; no item request throws, and no item is created on a subscription that is deleted. -/
def InTurn (σ : State N) : Action N → Prop
  | .create _ _ => ∀ k, (σ.request k).status ≠ .outstanding ∧ ∀ id, (σ.request k).status ≠ .live id
  | .good _ _ throws => throws = none
  | .item k _ (.ok _) _ => ∃ id, (σ.request k).status = .live id
  | _ => True

/-- One request is outstanding or one subscription is there, and the members are about it. -/
structure Single (σ : State N) : Prop where
  one : ∀ j k, (σ.request j).status = .outstanding → (σ.request k).status = .outstanding → j = k
  nodes : ∀ k, (σ.request k).status = .outstanding → (σ.request k).nodes = σ.nodeIds
  alone : ∀ k, (σ.request k).status = .outstanding → ∀ j id, (σ.request j).status ≠ .live id
  named : ∀ k id, (σ.request k).status = .live id → σ.subscriptionId = some id

omit [ToString N] in
theorem Single.of_update {k : ℕ} {r : Request N} {τ : State N} (hτ : τ.request = Function.update σ.request k r)
    (hr : r.status ≠ .outstanding) (hout : ∀ j, j ≠ k → (σ.request j).status ≠ .outstanding)
    (hlive : ∀ j id, j ≠ k → (σ.request j).status ≠ .live id)
    (hnamed : ∀ id, r.status = .live id → τ.subscriptionId = some id) : Single τ := by
  have hnone : ∀ j, (τ.request j).status ≠ .outstanding := by
    intro j
    by_cases hjk : j = k
    · subst hjk
      rwa [hτ, Function.update_self]
    · rw [hτ, Function.update_of_ne hjk]
      exact hout j hjk
  refine ⟨fun j _ hj => absurd hj (hnone j), fun j hj => absurd hj (hnone j), fun j hj => absurd hj (hnone j), ?_⟩
  intro j id hj
  by_cases hjk : j = k
  · subst hjk
    rw [hτ, Function.update_self] at hj
    exact hnamed id hj
  · rw [hτ, Function.update_of_ne hjk] at hj
    exact absurd hj (hlive j id hjk)

theorem single_step (hn : Numbered σ) (h : Single σ) (hk : InTurn σ a) (hs : Step σ a σ') : Single σ' := by
  cases hs with
  | create nodes sent =>
    cases sent with
    | false =>
      exact ⟨h.one, fun k ho => absurd ho (hk k).1, h.alone, h.named⟩
    | true =>
      have hother : ∀ j, ((σ.createSubscription nodes true).request j).status = .outstanding → j = σ.sent := by
        intro j hj
        by_contra hne
        exact (hk j).1 (by simpa [State.createSubscription, hne] using hj)
      have hlive : ∀ j id, ((σ.createSubscription nodes true).request j).status ≠ .live id := by
        intro j id hj
        by_cases hne : j = σ.sent
        · simp [State.createSubscription, hne] at hj
        · exact (hk j).2 id (by simpa [State.createSubscription, hne] using hj)
      refine ⟨fun j k hj hk => (hother j hj).trans (hother k hk).symm, fun j hj => ?_, fun _ _ => hlive,
        fun j id hj => absurd hj (hlive j id)⟩
      simp [hother j hj, State.createSubscription]
  | good k id throws ho hid ht =>
    refine .of_update rfl nofun (fun j hj hjo => hj (h.one j k hjo ho)) (fun j id' _ => h.alone k ho j id') ?_
    rintro id' hl
    cases hl
    rfl
  | bad k what ho =>
    exact .of_update rfl nofun (fun j hj hjo => hj (h.one j k hjo ho)) (fun j id _ => h.alone k ho j id) nofun
  | item k i node result handlers hi =>
    obtain ⟨r, hr, hstatus, -, hnodes⟩ := itemCreated_request (σ := σ) k i node result handlers
    have hsame : ∀ j, ((σ.itemCreated k i node result handlers).request j).status = (σ.request j).status ∧
        ((σ.itemCreated k i node result handlers).request j).nodes = (σ.request j).nodes := by
      intro j
      by_cases hjk : j = k
      · subst hjk
        rw [hr, Function.update_self]
        exact ⟨hstatus, hnodes⟩
      · rw [hr, Function.update_of_ne hjk]
        exact ⟨rfl, rfl⟩
    have hmembers : (σ.itemCreated k i node result handlers).nodeIds = σ.nodeIds ∧
        (σ.itemCreated k i node result handlers).subscriptionId = σ.subscriptionId := by
      cases result <;> exact ⟨rfl, rfl⟩
    constructor
    case one => simpa only [hsame] using h.one
    case nodes => simpa only [hsame, hmembers] using h.nodes
    case alone => simpa only [hsame] using h.alone
    case named => simpa only [hsame, hmembers] using h.named
  | deleted k id hl =>
    refine .of_update (release_request id) nofun (fun j _ ho => h.alone j ho k id hl) (fun j id' hj hl' => hj ?_) nofun
    -- `subscription_id_` names both
    have hid := (h.named j id' hl').symm.trans (h.named k id hl)
    cases hid
    exact hn.unique j k id hl' hl

theorem keeps_of_inTurn (h : Single σ) (hh : HoldsCreated σ) (hk : InTurn σ a) (hs : Step σ a σ') : Keeps σ a := by
  cases hs with
  | create | bad | deleted => trivial
  | good k id throws ho hid ht =>
    obtain rfl : throws = none := hk
    refine ⟨(h.nodes k ho).symm, ?_⟩
    -- no subscription is there
    unfold HoldsCreated at hh
    cases hs : σ.subscriptionId with
    | none => rwa [hs] at hh
    | some id' =>
      simp only [hs] at hh
      obtain ⟨j, hj, -⟩ := hh
      exact absurd hj (h.alone k ho j id')
  | item k i node result handlers hi =>
    cases result with
    | error what => trivial
    | ok itemId =>
      obtain ⟨id, hl⟩ := hk
      exact ⟨id, hl, h.named k id hl⟩

/-- **One subscription after the other** keeps both properties. -/
theorem monitors_of_inTurn (h : Runs.Reach Step InTurn .init σ) : Monitors σ ∧ HoldsCreated σ := by
  have hsingle : Single σ ∧ Monitors σ ∧ HoldsCreated σ := by
    refine h.invariant (I := fun σ => Single σ ∧ Monitors σ ∧ HoldsCreated σ)
      ⟨⟨nofun, nofun, nofun, nofun⟩, nofun, rfl⟩ fun s a s' hr hi hk hs => ?_
    have hkeeps := keeps_of_inTurn hi.1 hi.2.2 hk hs
    exact ⟨single_step (numbered_of_reach hr) hi.1 hk hs, (keeps_iff (numbered_of_reach hr) hi.2.1 hi.2.2 hs).mpr hkeeps⟩
  exact hsingle.2

omit [ToString N] in
/-- The second request replaces the node list before the first one is answered. -/
theorem not_forall_monitors : ¬ ∀ σ : State ℕ, Runs.Reachable Step .init σ →
    Monitors σ ∧ HoldsCreated σ := by
  intro h
  have h₀ : Runs.Reachable Step (.init : State ℕ) .init := .init
  have h₁ := h₀.then (.create [1] true)
  have h₂ := h₁.then (.create [2] true)
  have h₃ := h₂.then (.good 0 7 none rfl (fun j => ?_) nofun)
  · exact absurd ((h _ h₃).1 0 rfl) (by decide)
  · by_cases h0 : j = 0 <;> by_cases h1 : j = 1 <;>
      simp [State.createSubscription, State.init, Function.update, h0, h1]

end TPC.System.Subscription
