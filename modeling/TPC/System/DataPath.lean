import TPC.Lib.History
import TPC.System.Sessions
import TPC.System.Subscription
import TPC.System.Telemetry

/-!
# From the server to the frames

The client as a whole: the discoveries, the subscription and the receiver, driven by the callbacks of the
OPC UA thread, and the requests for frames on any threads.

* `State`, **`Step`**; `telemetry_reaches`, `sessions_reachable`, `subscription_reachable`: its parts;
* `Found`, `Inv`, `Inv.step`: the subscription and the samples are about nodes that a discovery has found;
* `Finds`: a table and the answers that a discovery has had for it;
* `Origin`: where an entry of a frame comes from;
* **`frames_from_server`**: every entry has one, and with no more than 36 channels every reading arrives.
-/

namespace TPC.System.DataPath

open Discovery TPC.System.Frame Client History

variable {N F ι : Type} [DecidableEq N]

structure State (N F ι : Type) where
  sessions : Sessions.State N
  subscription : Subscription.State N
  telemetry : Telemetry.State N F ι

/-- The members that a discovery changes, before the first one. -/
def noMembers : Members N := ⟨⟨∅⟩, [], none, []⟩

def State.init (objectsFolder : N) (c : Client N F) : State N F ι :=
  ⟨.init objectsFolder noMembers, .init, .init c⟩

/-- A table or a sample reaches the client. -/
def receive [Arith F] (τ : Telemetry.State N F ι) (e : Event N F) : Telemetry.State N F ι :=
  { τ with client := τ.client.handle e, events := τ.events ++ [e] }

variable {order : UnorderedMap.Enumeration N String} {objectsFolder : N} {c : Client N F} {s s' : State N F ι}

section

variable [Arith F] [ToString N] [DecidableEq ι]

/-- One step of some thread. The node list is taken in the order `order`. -/
inductive Step (order : UnorderedMap.Enumeration N String) (s : State N F ι) : State N F ι → Prop
  /-- A session is activated. -/
  | activate : Step order s { s with sessions := { s.sessions with started := s.sessions.started + 1 } }
  /-- The answer to a browse, after which the discovery goes on or has failed. -/
  | answer (n : ℕ) (q : N) (x : Except String (BrowseResult N)) (handlers subscription : Option String)
    (hn : n < s.sessions.started) (hq : (s.sessions.chain n).outstanding = some q)
    (hx : ∀ d, (s.sessions.chain n).resume x ≠ .ret d) :
    Step order s { s with
      sessions := (s.sessions.hear n q x handlers).answer order n x handlers subscription }
  /-- The answer that ends it: the table is installed, and then, unless a handler throws, the nodes go to the
  subscription, which no other thread sees. -/
  | discovered (n : ℕ) (q : N) (x : Except String (BrowseResult N)) (d : DiscoveryResult N)
    (handlers subscription : Option String) (hn : n < s.sessions.started)
    (hq : (s.sessions.chain n).outstanding = some q) (hx : (s.sessions.chain n).resume x = .ret d) :
    Step order s ⟨(s.sessions.hear n q x handlers).answer order n x handlers subscription,
      if handlers.isNone then
        s.subscription.createSubscription ((order.entries d.nodes).map Sigma.fst) subscription.isNone
      else s.subscription,
      receive s.telemetry (.discovered d)⟩
  /-- A response for the subscription or for one of its items, or its deletion. -/
  | responds (a : Subscription.Action N) (σ : Subscription.State N) (hs : Subscription.Step s.subscription a σ)
    (ha : ∀ nodes sent, a ≠ .create nodes sent) : Step order s { s with subscription := σ }
  /-- The value of a monitored item, which goes under the node of its request. -/
  | sampled (k : ℕ) (node : N) (values : List F) (hk : node ∈ (s.subscription.request k).items) :
    Step order s { s with telemetry := receive s.telemetry (.sampled node values) }
  /-- A request for a frame goes on. -/
  | request (τ : Telemetry.State N F ι) (hs : Telemetry.Step s.telemetry τ) (he : τ.events = s.telemetry.events) :
    Step order s { s with telemetry := τ }

/-- The states that runs from `s` reach. -/
abbrev Reaches (order : UnorderedMap.Enumeration N String) : State N F ι → State N F ι → Prop :=
  Relation.ReflTransGen (Step order)

/-! ## The parts -/

theorem telemetry_reaches (h : Reaches order (.init objectsFolder c) s) :
    Telemetry.Reaches (.init c) s.telemetry := by
  induction h with
  | refl => exact .refl
  | tail _ hs ih =>
    cases hs with
    | activate | answer | responds => exact ih
    | discovered n q x d handlers subscription hn hq hx => exact ih.tail (.event (.discovered d))
    | sampled k node values hk => exact ih.tail (.event (.sampled node values))
    | request τ hs he => exact ih.tail hs

theorem sessions_reachable (h : Reaches order (.init objectsFolder c) s) :
    Runs.Reachable (Sessions.Step order) (.init objectsFolder noMembers) s.sessions := by
  induction h with
  | refl => exact .init
  | tail _ hs ih =>
    cases hs with
    | activate => exact ih.then .activate
    | answer n q x handlers subscription hn hq hx => exact ih.then (.answer n q x handlers subscription hn hq)
    | discovered n q x d handlers subscription hn hq hx =>
      exact ih.then (.answer n q x handlers subscription hn hq)
    | responds | sampled | request => exact ih

theorem subscription_reachable (h : Reaches order (.init objectsFolder c) s) :
    Runs.Reachable Subscription.Step .init s.subscription := by
  induction h with
  | refl => exact .init
  | tail _ hs ih =>
    cases hs with
    | activate | answer | sampled | request => exact ih
    | discovered n q x d handlers subscription hn hq hx =>
      split_ifs
      · exact ih.then (.create _ _)
      · exact ih
    | responds a σ hs ha => exact ih.then hs

end

/-! ## What has been found -/

/-- What an event makes the channel table. -/
def tableOf : Event N F → Option (DiscoveryResult N)
  | .discovered d => some d
  | .sampled .. => none

/-- What an event brings of a node, if it brings anything. -/
def samplesOf (node : N) : Event N F → Option (List F)
  | .discovered _ => none
  | .sampled node' values => if node' = node ∧ values ≠ [] then some values else none

/-- A discovery has found the node. -/
def Found (events : List (Event N F)) (node : N) : Prop :=
  ∃ (f : ℕ) (d : DiscoveryResult N), events[f]? = some (.discovered d) ∧ node ∈ d.nodes

variable {events : List (Event N F)} {e : Event N F} {node : N} {n k j : ℕ}

omit [DecidableEq N] in
theorem eq_discovered_of_tableOf {table : DiscoveryResult N} (h : tableOf e = some table) :
    e = .discovered table := by
  cases e with
  | discovered d => exact congrArg _ (Option.some_inj.mp h)
  | sampled node values => cases h

theorem eq_sampled_of_samplesOf {values : List F} (h : samplesOf node e = some values) :
    e = .sampled node values := by
  cases e with
  | discovered d => cases h
  | sampled node' values' =>
    rw [samplesOf] at h
    split_ifs at h with hc
    rw [hc.1, Option.some_inj.mp h]

omit [DecidableEq N] in
theorem Found.concat (h : Found events node) (e : Event N F) : Found (events ++ [e]) node := by
  obtain ⟨f, d, hf, hd⟩ := h
  exact ⟨f, d, List.getElem?_append_left (List.getElem?_eq_some_iff.mp hf).1 ▸ hf, hd⟩

omit [DecidableEq N] in
theorem found_discovered {d : DiscoveryResult N} (h : node ∈ d.nodes) :
    Found (events ++ [.discovered d]) node :=
  ⟨events.length, d, List.getElem?_concat_length, h⟩

theorem channelsInfo_handleAll [Arith F] (c : Client N F) (events : List (Event N F)) :
    (c.handleAll events).channelsInfo = (latest tableOf events).getD c.channelsInfo := by
  induction events using List.reverseRecOn with
  | nil => rfl
  | append_singleton events e ih =>
    rw [Telemetry.handleAll_concat, latest_concat]
    cases e with
    | discovered d => rfl
    | sampled node values =>
      rw [handle_sampled]
      exact ih

theorem lastValue_arrivals [Arith F] (events : List (Event N F)) (node : N) :
    FrameReceiver.lastValue (arrivals events) node = (latest (samplesOf node) events).map average := by
  induction events using List.reverseRecOn with
  | nil => rfl
  | append_singleton events e ih =>
    rw [arrivals_concat, latest_concat]
    cases e with
    | discovered d => simpa [Event.arrival, samplesOf] using ih
    | sampled node' values =>
      by_cases hv : values = []
      · simpa [Event.arrival, samplesOf, hv] using ih
      · rw [Event.arrival, if_neg (by simpa using hv), Option.toList_some, FrameReceiver.lastValue_concat]
        by_cases hn : node = node'
        · simp [samplesOf, hn, hv]
        · simpa [samplesOf, hn, Ne.symm hn] using ih

/-! ## One step -/

omit [DecidableEq N] in
theorem items_step [ToString N] {σ σ' : Subscription.State N} {a : Subscription.Action N} (h : Subscription.Step σ a σ')
    (ha : ∀ nodes sent, a ≠ .create nodes sent) : σ'.nodeIds = σ.nodeIds ∧
      ∀ k, ∀ node ∈ (σ'.request k).items, node ∈ (σ.request k).items ∨ node ∈ σ.nodeIds := by
  have hupdate : ∀ {r : Subscription.Request N} {k : ℕ},
      (∀ node ∈ r.items, node ∈ (σ.request k).items ∨ node ∈ σ.nodeIds) → ∀ k', ∀ node ∈
        (Function.update σ.request k r k').items, node ∈ (σ.request k').items ∨ node ∈ σ.nodeIds := by
    intro r k hr k' node hnode
    by_cases hk : k' = k
    · subst hk
      rw [Function.update_self] at hnode
      exact hr node hnode
    · rw [Function.update_of_ne hk] at hnode
      exact .inl hnode
  cases h with
  | create nodes sent => exact absurd rfl (ha nodes sent)
  | good k id throws hk hid ht =>
    refine ⟨rfl, hupdate fun node hnode => .inr ?_⟩
    cases throws with
    | none => exact hnode
    | some t => exact List.mem_of_mem_take hnode
  | bad k what hk => exact ⟨rfl, hupdate fun node hnode => .inl hnode⟩
  | item k i node result handlers hi =>
    obtain ⟨r, hr, -, hitems, -⟩ := Subscription.itemCreated_request (σ := σ) k i node result handlers
    refine ⟨by cases result <;> rfl, ?_⟩
    rw [hr]
    exact hupdate fun node' hnode => .inl (hitems ▸ hnode)
  | deleted k id hk =>
    have hids : (σ.deleted k id).nodeIds = σ.nodeIds := by
      unfold Subscription.State.deleted Subscription.State.release
      split_ifs <;> rfl
    refine ⟨hids, ?_⟩
    rw [Subscription.State.deleted, Subscription.release_request]
    exact hupdate fun node' hnode => .inl hnode

/-- The tables are those of the discoveries that have succeeded, and the subscription and the samples are about
nodes that these have found. -/
structure Inv (β : Sessions.State N) (events : List (Event N F)) (σ : Subscription.State N) : Prop where
  tables : List.Forall₂ (fun n d => β.chain n = .ret d) β.succeeded (events.filterMap tableOf)
  nodeIds : ∀ node ∈ σ.nodeIds, Found events node
  items : ∀ k, ∀ node ∈ (σ.request k).items, Found events node
  /-- A node has been found before it is sampled. -/
  sampled : ∀ (i : ℕ) (node : N) (values : List F), events[i]? = some (.sampled node values) →
    Found (events.take i) node

variable {β β' : Sessions.State N} {σ : Subscription.State N} {d : DiscoveryResult N}

omit [DecidableEq N] in
/-- An answer after which a discovery goes on, or has failed, changes no table. -/
theorem Inv.answer (h : Inv β events σ) {q : N} {x : Except String (BrowseResult N)}
    (hq : (β.chain n).outstanding = some q) (hx : ∀ d, (β.chain n).resume x ≠ .ret d)
    (handlers subscription : Option String) :
    Inv ((β.hear n q x handlers).answer order n x handlers subscription) events σ where
  tables := by
    rw [Sessions.hear_answer_chain, Sessions.hear_answer_of_ne_ret hx]
    exact h.tables.imp fun _ _ hk => Sessions.update_chain_eq_ret (Sessions.ne_ret_of_outstanding hq) hk
  nodeIds := h.nodeIds
  items := h.items
  sampled := h.sampled

omit [DecidableEq N] in
theorem Inv.discovered (h : Inv β events σ) {q : N} {x : Except String (BrowseResult N)}
    (hq : (β.chain n).outstanding = some q) (hx : (β.chain n).resume x = .ret d)
    (handlers subscription : Option String) :
    Inv ((β.hear n q x handlers).answer order n x handlers subscription) (events ++ [.discovered d]) σ where
  tables := by
    rw [Sessions.hear_answer_chain, Sessions.hear_answer_of_ret hx, List.filterMap_append]
    refine List.rel_append ?_ (.cons ?_ .nil)
    · exact h.tables.imp fun _ _ hk => Sessions.update_chain_eq_ret (Sessions.ne_ret_of_outstanding hq) hk
    · rw [Function.update_self, hx]
  nodeIds node hnode := (h.nodeIds node hnode).concat _
  items k node hnode := (h.items k node hnode).concat _
  sampled i node values hi := by
    rcases getElem?_concat_eq_some.mp hi with hi | ⟨-, he⟩
    · rw [List.take_append_of_le_length (List.getElem?_eq_some_iff.mp hi).1.le]
      exact h.sampled i node values hi
    · cases he

omit [DecidableEq N] in
theorem Inv.sample (h : Inv β events σ) (hnode : Found events node) (values : List F) :
    Inv β (events ++ [.sampled node values]) σ where
  tables := by
    rw [List.filterMap_append]
    exact (List.append_nil _).symm ▸ h.tables
  nodeIds node hnode := (h.nodeIds node hnode).concat _
  items k node hnode := (h.items k node hnode).concat _
  sampled i node' values' hi := by
    rcases getElem?_concat_eq_some.mp hi with hi | ⟨rfl, he⟩
    · rw [List.take_append_of_le_length (List.getElem?_eq_some_iff.mp hi).1.le]
      exact h.sampled i node' values' hi
    · cases he
      rw [List.take_left]
      exact hnode

omit [DecidableEq N] in
theorem Inv.createSubscription (h : Inv β events σ) {nodes : List N}
    (hnodes : ∀ node ∈ nodes, Found events node) (sent : Bool) :
    Inv β events (σ.createSubscription nodes sent) where
  tables := h.tables
  nodeIds := by
    cases sent <;> exact hnodes
  items k node hnode := by
    cases sent with
    | false => exact h.items k node hnode
    | true =>
      have hmem : node ∈ (Function.update σ.request σ.sent ⟨nodes, .outstanding, [], [], []⟩ k).items := hnode
      by_cases hk : k = σ.sent
      · subst hk
        rw [Function.update_self] at hmem
        cases hmem
      · rw [Function.update_of_ne hk] at hmem
        exact h.items k node hmem
  sampled := h.sampled

theorem Inv.step [Arith F] [ToString N] [DecidableEq ι] (h : Inv s.sessions s.telemetry.events s.subscription)
    (hs : Step order s s') : Inv s'.sessions s'.telemetry.events s'.subscription := by
  cases hs with
  | activate => exact ⟨h.tables, h.nodeIds, h.items, h.sampled⟩
  | answer n q x handlers subscription hn hq hx => exact h.answer hq hx handlers subscription
  | discovered n q x d handlers subscription hn hq hx =>
    have hd : Inv ((s.sessions.hear n q x handlers).answer order n x handlers subscription) _ s.subscription :=
      h.discovered hq hx handlers subscription
    show Inv _ (s.telemetry.events ++ [.discovered d]) (ite _ _ _)
    split_ifs
    · refine hd.createSubscription (fun node hnode => ?_) _
      obtain ⟨⟨node', name⟩, he, rfl⟩ := List.mem_map.mp hnode
      refine found_discovered (AList.lookup_isSome.mp ?_)
      rw [order.mem_entries.mp he]
      rfl
    · exact hd
  | responds a σ hs ha =>
    obtain ⟨hids, hitems⟩ := items_step hs ha
    exact ⟨h.tables, fun node hnode => h.nodeIds node (hids ▸ hnode),
      fun k node hnode => (hitems k node hnode).elim (h.items k node) (h.nodeIds node), h.sampled⟩
  | sampled k node values hk => exact h.sample (h.items k node hk) values
  | request τ hs he =>
    show Inv s.sessions τ.events s.subscription
    rw [he]
    exact h

theorem inv_reaches [Arith F] [ToString N] [DecidableEq ι] (h : Reaches order (.init objectsFolder c) s) :
    Inv s.sessions s.telemetry.events s.subscription := by
  induction h with
  | refl => exact ⟨.nil, nofun, nofun, nofun⟩
  | tail h hs ih => exact ih.step hs

/-- Event `t` is the end of discovery `n`, which has listed in the table `d` what has been answered to it. -/
structure Finds (objectsFolder : N) (β : Sessions.State N) (events : List (Event N F)) (t n : ℕ)
    (d : DiscoveryResult N) : Prop where
  event : events[t]? = some (.discovered d)
  /-- It has succeeded after all those with an earlier table. -/
  succeeded : β.succeeded[((events.take t).filterMap tableOf).length]? = some n
  lists : Lists objectsFolder (β.answers n) d

theorem Inv.exists_finds (h : Inv β events σ)
    (hl : ∀ n d, β.chain n = .ret d → Lists objectsFolder (β.answers n) d) {t : ℕ}
    (ht : events[t]? = some (.discovered d)) : ∃ n, Finds objectsFolder β events t n d := by
  obtain ⟨n, hn, hd⟩ := exists_getElem?_of_forall₂ h.tables (getElem?_filterMap_take ht rfl)
  exact ⟨n, ht, hn, hl n d hd⟩

/-! ## The entries of the frames -/

section

variable [Arith F]

/-- Where the entry of a frame comes from that has the values of the moment `k` and the names of the moment `j`. -/
structure Origin (objectsFolder : N) (β : Sessions.State N) (events : List (Event N F)) (k j : ℕ) (name : String)
    (v : F) (node : N) : Prop where
  /-- The name is the one that the discovery that finished last has found for the node, -/
  named : ∃ t table n, Last tableOf events j t table ∧ Finds objectsFolder β events t n table ∧
    table.nodes.lookup node = some name
  /-- the value is the mean of its last sample, calibrated, and a discovery had found the node before that
  sample. -/
  read : ∃ i values, Last (samplesOf node) events k i values ∧ v = calibrate name (average values) ∧
    ∃ t < i, ∃ n d, Finds objectsFolder β events t n d ∧ node ∈ d.nodes

/-- The discoveries have found no more than 36 nodes in all. -/
def Fits (events : List (Event N F)) : Prop := ∃ S : Finset N, S.card ≤ 36 ∧ ∀ node, Found events node → node ∈ S

/-- How the frames show what the server has. -/
structure FromServer (objectsFolder : N) (c : Client N F) (β : Sessions.State N) (events : List (Event N F))
    (answers : List (Telemetry.Answer F ι)) : Prop where
  origin : ∀ a ∈ answers, ∀ frame, a.frame = some frame → ∀ name v, frame.lookup name = some v →
    ∃ node, Origin objectsFolder β events a.copy a.join name v node
  /-- No sample is refused, -/
  accepted : Fits events → ∀ (i : ℕ) node values, events[i]? = some (.sampled node values) → values ≠ [] →
    ((Telemetry.clientAt c events i).onSubscriptionDataReceived node values).2 = none
  /-- and every channel of the table with a name of its own is shown, once it has been sampled. -/
  complete : Fits events → ∀ a ∈ answers, ∀ t table, Last tableOf events a.join t table →
    ∀ node name, table.nodes.lookup node = some name →
      (∀ node', table.nodes.lookup node' = some name → node' = node) →
        ∀ i values, Last (samplesOf node) events a.copy i values →
          ∃ frame, a.frame = some frame ∧ frame.lookup name = some (calibrate name (average values))

theorem exists_last_sample {value : F} (h : FrameReceiver.lastValue (arrivals (events.take k)) node = some value) :
    ∃ i values, Last (samplesOf node) events k i values ∧ average values = value := by
  rw [lastValue_arrivals, Option.map_eq_some_iff] at h
  obtain ⟨values, hvalues, hv⟩ := h
  obtain ⟨i, hi⟩ := latest_take_eq_some.mp hvalues
  exact ⟨i, values, hi, hv⟩

theorem mem_of_lastValue {value : F} (h : FrameReceiver.lastValue (arrivals events) node = some value) :
    node ∈ (arrivals events).map Prod.fst := by
  obtain ⟨l₁, l₂, hl, -⟩ := List.lookup_eq_some_iff.mp h
  have hmem : (node, value) ∈ (arrivals events).reverse := by
    rw [hl]
    simp
  exact List.mem_map.mpr ⟨_, List.mem_reverse.mp hmem, rfl⟩

omit [DecidableEq N] in
/-- What is sent to the receiver is of a node that has been found. -/
theorem found_of_arrival (h : Inv β events σ) {a : N × F} (ha : a ∈ arrivals (events.take n)) :
    Found events a.1 := by
  obtain ⟨e, he, hea⟩ := List.mem_filterMap.mp ha
  obtain ⟨i, hi⟩ := List.mem_iff_getElem?.mp (List.mem_of_mem_take he)
  cases e with
  | discovered d => cases hea
  | sampled node values =>
    rw [Event.arrival] at hea
    split_ifs at hea
    cases hea
    obtain ⟨f, d, hf, hd⟩ := h.sampled i node values hi
    rw [List.getElem?_take] at hf
    split_ifs at hf with hlt
    exact ⟨f, d, hf, hd⟩

theorem Inv.mem_admittedNodes (h : Inv β events σ) (hfits : Fits events) (n : ℕ) :
    node ∈ admittedNodes (events.take n) ↔ node ∈ (arrivals (events.take n)).map Prod.fst := by
  obtain ⟨S, hS, hfound⟩ := hfits
  exact Client.mem_admittedNodes hS fun a ha => hfound a.1 (found_of_arrival h ha)

/-- An entry of a frame is traced back from what the request has seen. -/
theorem exists_origin (hi : Inv β events σ) (hl : ∀ n d, β.chain n = .ret d → Lists objectsFolder (β.answers n) d)
    (hc : Client.create = .ok c) {name : String} {value v : F}
    (hnode : (Telemetry.clientAt c events j).channelsInfo.nodes.lookup node = some name)
    (hlast : FrameReceiver.lastValue (arrivals (events.take k)) node = some value) (hv : v = calibrate name value) :
    Origin objectsFolder β events k j name v node where
  named := by
    obtain ⟨rc, -, rfl⟩ := Telemetry.create_eq hc
    rw [Telemetry.clientAt, channelsInfo_handleAll] at hnode
    cases htable : latest tableOf (events.take j) with
    | none =>
      rw [htable] at hnode
      cases hnode
    | some table =>
      obtain ⟨t, ht⟩ := latest_take_eq_some.mp htable
      obtain ⟨e, he, hwrites⟩ := ht.writes
      obtain ⟨n, hn⟩ := hi.exists_finds hl (eq_discovered_of_tableOf hwrites ▸ he)
      rw [htable] at hnode
      exact ⟨t, table, n, ht, hn, hnode⟩
  read := by
    obtain ⟨i, values, hsample, rfl⟩ := exists_last_sample hlast
    obtain ⟨e, he, hwrites⟩ := hsample.writes
    obtain ⟨t, d, ht, hd⟩ := hi.sampled i node values (eq_sampled_of_samplesOf hwrites ▸ he)
    rw [List.getElem?_take] at ht
    split_ifs at ht with hlt
    obtain ⟨n, hn⟩ := hi.exists_finds hl ht
    exact ⟨i, values, hsample, hv, t, hlt, n, d, hn, hd⟩

theorem accepts_of_fits (hi : Inv β events σ) (hc : Client.create = .ok c) (hfits : Fits events)
    {i : ℕ} {values : List F} (hs : events[i]? = some (.sampled node values)) (hv : values ≠ []) :
    ((Telemetry.clientAt c events i).onSubscriptionDataReceived node values).2 = none := by
  obtain ⟨hholds, hcapacity⟩ := Telemetry.holds_clientAt hc events i
  have harrivals : arrivals (events.take (i + 1)) = arrivals (events.take i) ++ [(node, average values)] := by
    rw [List.take_add_one, hs, Option.toList_some, arrivals_concat, Event.arrival, if_neg (by simpa using hv),
      Option.toList_some]
  have hadmitted : node ∈ admittedNodes (events.take (i + 1)) := by
    rw [hi.mem_admittedNodes hfits, harrivals]
    simp
  obtain ⟨rc, hrc⟩ : ∃ rc, (Telemetry.clientAt c events i).frameReceiver.addBack node (average values) = .ok rc := by
    rw [hholds.isOk_addBack, hcapacity, ← harrivals]
    exact hadmitted
  rw [onSubscriptionDataReceived, if_neg (by simpa using hv), hrc]

/-- **From the server to the frames**: an entry of a frame is the last sample of a node that a discovery has
found, under the name that the last discovery to finish has found for it in the answers to its browses; and with
no more than 36 nodes in all, nothing is refused, and no channel of the table is missing. -/
theorem frames_from_server [ToString N] [DecidableEq ι] (hc : Client.create = .ok c)
    (h : Reaches order (.init objectsFolder c) s) :
    FromServer objectsFolder c s.sessions s.telemetry.events s.telemetry.answers := by
  have hi := inv_reaches h
  have hlast := (Sessions.last_finished_wins (sessions_reachable h)).1
  have hanswers := Telemetry.getFrameRequest_answers hc (telemetry_reaches h)
  refine ⟨fun a ha frame hf name v hv => ?_, fun hfits i node values hs hv => accepts_of_fits hi hc hfits hs hv,
    fun hfits a ha t table ht node name hname hunique i values hlast => ?_⟩
  · obtain ⟨node, value, ⟨hnode, hvalue⟩, hcalibrate⟩ := (hanswers.shows a ha frame hf name).1 v hv
    rw [hanswers.latest a ha] at hvalue
    split_ifs at hvalue
    exact ⟨node, exists_origin hi (fun n d hd => (hlast.lists hd).2) hc hnode hvalue hcalibrate⟩
  · have hvalue : FrameReceiver.lastValue (arrivals (s.telemetry.events.take a.copy)) node = some (average values) := by
      rw [lastValue_arrivals, latest_take_eq_some.mpr ⟨i, hlast⟩, Option.map_some]
    have hmem := mem_of_lastValue hvalue
    obtain ⟨frame, hframe⟩ := Option.ne_none_iff_exists'.mp fun hnone => by
      rw [(hanswers.empty a ha).mp hnone] at hmem
      cases hmem
    refine ⟨frame, hframe, ?_⟩
    have htable : (Telemetry.clientAt c s.telemetry.events a.join).channelsInfo = table := by
      rw [Telemetry.clientAt, channelsInfo_handleAll, latest_take_eq_some.mpr ⟨t, ht⟩, Option.getD_some]
    have hshows := hanswers.shows a ha frame hframe name
    have hread : Reads (Telemetry.seen c s.telemetry.events a.copy a.join) node name (average values) := by
      refine ⟨htable ▸ hname, ?_⟩
      rw [hanswers.latest a ha, if_pos ((hi.mem_admittedNodes hfits _).mpr hmem), hvalue]
    obtain ⟨v, hv⟩ := Option.isSome_iff_exists.mp (AList.lookup_isSome.mpr (hshows.2 ⟨node, _, hread⟩))
    obtain ⟨node', value, hread', rfl⟩ := hshows.1 v hv
    obtain rfl : node' = node := hunique node' (htable ▸ hread'.1)
    rw [hv, Option.some_inj.mp (hread'.2.symm.trans hread.2)]

end

/-! ## One session -/

/-- The channel of `Sessions.newServer` is found and sampled. -/
noncomputable def sampledEvents : List (Event ℕ ℝ) := [.discovered Sessions.newTable, .sampled 5 [1]]

theorem exists_answer : ∃ s : State ℕ ℝ Unit, Reaches stored (.init 0 created) s ∧ s.telemetry.answers ≠ [] := by
  have order : UnorderedMap.Enumeration ℕ ℝ := ⟨AList.entries, fun _ => .refl _⟩
  have names : UnorderedMap.Enumeration String ℝ := ⟨AList.entries, fun _ => .refl _⟩
  have h₀ : Reaches stored (.init 0 created : State ℕ ℝ Unit) _ := .refl
  have h₁ := h₀.tail .activate
  have h₂ := h₁.tail (.answer 0 0 (Sessions.newServer 0) none none (by decide) (by decide +kernel)
    (Sessions.ne_ret_of_outstanding (q := 1) (by decide +kernel)))
  have h₃ := h₂.tail (.answer 0 1 (Sessions.newServer 1) none none (by decide +kernel) (by decide +kernel)
    (Sessions.ne_ret_of_outstanding (q := 2) (by decide +kernel)))
  have h₄ := h₃.tail (.discovered 0 2 (Sessions.newServer 2) Sessions.newTable none none (by decide +kernel)
    (by decide +kernel) rfl)
  have h₅ := h₄.tail (.responds (.good 0 7 none) _ (.good 0 7 none rfl (fun j => ?_) nofun) nofun)
  · have h₆ := h₅.tail (.sampled 0 5 [1] (List.mem_singleton_self 5))
    have h₇ := h₆.tail (.request _ (.begins () rfl) rfl)
    have hreceived := Telemetry.getFrame_clientAt rfl (c := created) (n := 2)
      (show arrivals (sampledEvents.take 2) ≠ [] from nofun)
    have h₈ := h₇.tail (.request _ (.copies () 2 _ rfl hreceived) rfl)
    have h₉ := h₈.tail (.request _ (.joins () 2 2 _ order names rfl) rfl)
    exact ⟨_, h₉, List.cons_ne_nil _ _⟩
  · by_cases hj : j = 0 <;>
      simp [Subscription.State.createSubscription, Subscription.State.init, State.init, Function.update, hj]

/-- `frames_from_server` for that session. -/
theorem frames_from_server_session : ∃ s : State ℕ ℝ Unit, Client.create = .ok (created : Client ℕ ℝ) ∧
    Reaches stored (.init 0 created) s ∧ s.telemetry.answers ≠ [] ∧
      FromServer 0 created s.sessions s.telemetry.events s.telemetry.answers := by
  obtain ⟨s, hs, ha⟩ := exists_answer
  exact ⟨s, rfl, hs, ha, frames_from_server rfl hs⟩

end TPC.System.DataPath
