import TPC.Core.Arith
import TPC.Lib.Fold
import TPC.System.FrameReceiver

/-!
# The client's frames

Samples enter the frame receiver under their node, and `Client::get_frame` reads them out under the
names of the current channel table. The receiver is never emptied, the table changes with every
discovery.

* `Client`, `onSubscriptionDataReceived`, `getFrame`, `getSensorsNames`;
* `Event`, `Run`: a client through any sequence of discoveries and samples;
* **`Run.serves`**: the channels that are served are those of the first 36 nodes;
* `Run.noneStarved`: with no more than 36 nodes, that is all of them;
* `not_forall_noneStarved`: after a rediscovery it need not be.
-/

namespace TPC.System

open Arith FrameReceiver

variable {N F : Type} [DecidableEq N] [Arith F]

/-- `models::DiscoveryResult`. -/
structure DiscoveryResult (N : Type) where
  nodes : UnorderedMap N String

/-- The members of `Client` that make the frames. -/
structure Client (N F : Type) where
  frameReceiver : FrameReceiver N F
  channelsInfo : DiscoveryResult N

namespace Client

/-- The constructor's share. -/
def create : Except String (Client N F) := do
  let frameReceiver ← FrameReceiver.create 36
  .ok ⟨frameReceiver, ⟨∅⟩⟩

/-- The mean of a sample. -/
def average (values : List F) : F := values.foldl (· + ·) 0 / (values.length : F)

/-- `Client::on_subscription_data_received`, with the warning it raises. -/
def onSubscriptionDataReceived (c : Client N F) (node : N) (values : List F) :
    Client N F × Option String :=
  if values.isEmpty then (c, some "Received an empty sensor sample")
  else
    match c.frameReceiver.addBack node (average values) with
    | .ok frameReceiver => ({ c with frameReceiver }, none)
    | .error error => (c, some error)

/-- `Client::get_frame`, the received frame visited in the given order. -/
def getFrame (c : Client N F) (order : UnorderedMap.Enumeration N F) :
    Option (UnorderedMap String F) :=
  match c.frameReceiver.getFrame with
  | .error _ => none
  | .ok receivedFrame => some ((order.entries receivedFrame).foldl
      (UnorderedMap.rename fun nodeId => c.channelsInfo.nodes.lookup nodeId) ∅)

omit [DecidableEq N] [Arith F] in
/-- `Client::get_sensors_names`, the table visited in the given order. -/
def getSensorsNames (c : Client N F) (order : UnorderedMap.Enumeration N String) : List String :=
  (order.entries c.channelsInfo.nodes).map Sigma.snd

/-! ## Runs -/

/-- A completed discovery, or a sample of one node. -/
inductive Event (N F : Type)
  | discovered (discovery : DiscoveryResult N)
  | sampled (node : N) (values : List F)

/-- A discovery finds at most 36 channels with different names; a sample is of a channel of the
table. -/
def Event.Allowed (c : Client N F) : Event N F → Prop
  | discovered discovery =>
    discovery.nodes.size ≤ 36 ∧ (discovery.nodes.entries.map Sigma.snd).Nodup
  | sampled node _ => node ∈ c.channelsInfo.nodes

/-- One event. `initialize_monitored_items` installs the table of a discovery. -/
def handle (c : Client N F) : Event N F → Client N F
  | .discovered discovery => { c with channelsInfo := discovery }
  | .sampled node values => (c.onSubscriptionDataReceived node values).1

/-- The client after a sequence of events. -/
inductive Run : List (Event N F) → Client N F → Prop
  | create (c : Client N F) (h : create = .ok c) : Run [] c
  | handle (es : List (Event N F)) (c : Client N F) (e : Event N F) (h : Run es c)
    (ha : e.Allowed c) : Run (es ++ [e]) (c.handle e)

/-- What a non-empty sample sends to the receiver. -/
def Event.arrival : Event N F → Option (N × F)
  | discovered _ => none
  | sampled node values => if values.isEmpty then none else some (node, average values)

/-- What a run sends to the receiver. -/
def arrivals (es : List (Event N F)) : List (N × F) := es.filterMap Event.arrival

/-- The nodes that a receiver of 36 admits: the first to be sampled. -/
def admittedNodes (es : List (Event N F)) : List N := admitted 36 (arrivals es)

/-- The mean of the last non-empty sample of a node since the last discovery. -/
def lastSample (node : N) (es : List (Event N F)) : Option F :=
  go es.reverse
where
  go : List (Event N F) → Option F
    | [] | .discovered _ :: _ => none
    | .sampled node' values :: es =>
      if node = node' ∧ values ≠ [] then some (average values) else go es

/-- Which channels are served: those of the first 36 nodes. -/
structure Serves (es : List (Event N F)) (c : Client N F) : Prop where
  /-- A non-empty sample is accepted exactly when its node is among the first. -/
  accepts : ∀ node ∈ c.channelsInfo.nodes, ∀ values ≠ [],
    (∃ rc, c.frameReceiver.addBack node (average values) = .ok rc) ↔
      node ∈ admittedNodes (es ++ [.sampled node values])
  /-- A channel sampled since the last discovery is in the frame, with its last sample, exactly when
  its node is among the first. -/
  frames : ∀ order node name value, c.channelsInfo.nodes.lookup node = some name →
    lastSample node es = some value →
      (c.getFrame order).bind (fun frame => frame.lookup name) =
        if node ∈ admittedNodes es then some value else none

/-- Every channel of the table is served. -/
structure NoneStarved (es : List (Event N F)) (c : Client N F) : Prop where
  accepts : ∀ node ∈ c.channelsInfo.nodes, ∀ values ≠ [],
    ∃ rc, c.frameReceiver.addBack node (average values) = .ok rc
  frames : ∀ order node name value, c.channelsInfo.nodes.lookup node = some name →
    lastSample node es = some value →
      (c.getFrame order).bind (fun frame => frame.lookup name) = some value

variable {es : List (Event N F)} {c : Client N F} {node : N} {values : List F}

omit [DecidableEq N] in
theorem arrivals_concat (es : List (Event N F)) (e : Event N F) :
    arrivals (es ++ [e]) = arrivals es ++ e.arrival.toList := by
  rw [arrivals, List.filterMap_append, arrivals]
  cases h : e.arrival <;> simp [h]

theorem handle_sampled (c : Client N F) (node : N) (values : List F) :
    c.handle (.sampled node values) = ⟨c.frameReceiver.receiveAll
      (Event.sampled node values).arrival.toList, c.channelsInfo⟩ := by
  rw [handle, onSubscriptionDataReceived, Event.arrival]
  split_ifs with hv
  · rfl
  · show _ = (⟨c.frameReceiver.receive (node, average values), c.channelsInfo⟩ : Client N F)
    rw [receive]
    cases c.frameReceiver.addBack node (average values) <;> rfl

/-- The receiver sees the samples of the run, whatever the discoveries in between. -/
theorem Run.frameReceiver (h : Run es c) : ∃ rc, FrameReceiver.create 36 = .ok rc ∧
    c.frameReceiver = rc.receiveAll (arrivals es) := by
  induction h with
  | create c h =>
    obtain ⟨rc, hrc, hc⟩ := Fold.bind_eq_ok.mp h
    cases hc
    exact ⟨rc, hrc, rfl⟩
  | handle es c e h ha ih =>
    obtain ⟨rc, hrc, hc⟩ := ih
    refine ⟨rc, hrc, ?_⟩
    rw [arrivals_concat, receiveAll, List.foldl_append]
    cases e with
    | discovered discovery => exact hc
    | sampled node values =>
      rw [handle_sampled, ← receiveAll, ← receiveAll, ← hc]

theorem Run.holds (h : Run es c) : Holds c.frameReceiver (arrivals es) := by
  obtain ⟨rc, hrc, hc⟩ := h.frameReceiver
  rw [hc]
  exact holds_receiveAll hrc _

theorem Run.capacity (h : Run es c) : c.frameReceiver.capacity = 36 := by
  obtain ⟨rc, hrc, hc⟩ := h.frameReceiver
  rw [hc, capacity_receiveAll]
  unfold FrameReceiver.create at hrc
  split_ifs at hrc
  cases hrc
  rfl

theorem Run.names (h : Run es c) : (c.channelsInfo.nodes.entries.map Sigma.snd).Nodup := by
  induction h with
  | create c h =>
    obtain ⟨rc, hrc, hc⟩ := Fold.bind_eq_ok.mp h
    cases hc
    exact List.nodup_nil
  | handle es c e h ha ih =>
    cases e with
    | discovered discovery => exact ha.2
    | sampled node values =>
      rw [handle_sampled]
      exact ih

theorem Run.eq_of_lookup (h : Run es c) {node' : N} {name : String}
    (hn : c.channelsInfo.nodes.lookup node = some name)
    (hn' : c.channelsInfo.nodes.lookup node' = some name) : node' = node :=
  congrArg Sigma.fst (List.inj_on_of_nodup_map h.names (AList.mem_lookup_iff.mp hn')
    (AList.mem_lookup_iff.mp hn) rfl)

theorem lastValue_of_lastSample {value : F} (h : lastSample node es = some value) :
    lastValue (arrivals es) node = some value := by
  induction es using List.reverseRecOn with
  | nil => cases h
  | append_singleton es e ih =>
    rw [lastSample, List.reverse_append, List.reverse_singleton, List.singleton_append] at h
    cases e with
    | discovered discovery => cases h
    | sampled node' values =>
      rw [lastSample.go] at h
      rw [arrivals_concat, Event.arrival]
      by_cases hv : values = []
      · rw [if_neg fun hc => hc.2 hv] at h
        rw [if_pos (List.isEmpty_iff.mpr hv), Option.toList_none, List.append_nil]
        exact ih h
      · rw [if_neg (mt List.isEmpty_iff.mp hv), Option.toList_some, lastValue_concat]
        by_cases hn : node = node'
        · rw [if_pos ⟨hn, hv⟩] at h
          rw [if_pos hn]
          exact h
        · rw [if_neg fun hc => hn hc.1] at h
          rw [if_neg hn]
          exact ih h

theorem Run.lookup_getFrame (h : Run es c) (order : UnorderedMap.Enumeration N F) {name : String}
    (hn : c.channelsInfo.nodes.lookup node = some name) :
    (c.getFrame order).bind (fun frame => frame.lookup name) =
      c.frameReceiver.received.lookup node := by
  rw [getFrame, FrameReceiver.getFrame]
  split_ifs with hs
  · have hempty : node ∉ c.frameReceiver.received := by
      intro hmem
      rw [AList.mem_keys] at hmem
      exact List.not_mem_nil (List.eq_nil_of_length_eq_zero hs ▸ hmem)
    exact (AList.lookup_eq_none.mpr hempty).symm
  · have hlookup := @UnorderedMap.lookup_foldl_rename _ _ _ _ _
      (fun nodeId => c.channelsInfo.nodes.lookup nodeId) _ _ hn
      (fun j hj => h.eq_of_lookup hn hj) _ ∅ (order.nodupKeys c.frameReceiver.received)
    rw [order.dlookup, AList.lookup_empty, Option.or_none] at hlookup
    exact hlookup

theorem Run.lookup_received (h : Run es c) {value : F} (hs : lastSample node es = some value) :
    c.frameReceiver.received.lookup node = if node ∈ admittedNodes es then some value else none := by
  have hmem : node ∈ c.frameReceiver.received ↔ node ∈ admitted c.frameReceiver.capacity.toNat
      (arrivals es) := h.holds.mem
  rw [h.capacity] at hmem
  split_ifs with ha
  · rw [h.holds.values node (hmem.mpr ha), lastValue_of_lastSample hs]
  · exact AList.lookup_eq_none.mpr (mt hmem.mp ha)

theorem Run.accepts (h : Run es c) (node : N) (hv : values ≠ []) :
    (∃ rc, c.frameReceiver.addBack node (average values) = .ok rc) ↔
      node ∈ admittedNodes (es ++ [.sampled node values]) := by
  rw [h.holds.isOk_addBack, h.capacity, admittedNodes, arrivals_concat, Event.arrival,
    if_neg (by simpa using hv)]
  rfl

/-- **The channels that are served**, after any run. -/
theorem Run.serves (h : Run es c) : Serves es c where
  accepts node _ _ hv := h.accepts node hv
  frames order node name value hn hs := by rw [h.lookup_getFrame order hn, h.lookup_received hs]

theorem mem_admittedNodes {S : Finset N} (hS : S.card ≤ 36) (hes : ∀ a ∈ arrivals es, a.1 ∈ S) :
    node ∈ admittedNodes es ↔ node ∈ (arrivals es).map Prod.fst := by
  have hnodup : ((arrivals es).map Prod.fst).distinct.Nodup :=
    List.nodup_reverse.mpr (List.nodup_dedup _)
  have hsub : ((arrivals es).map Prod.fst).distinct.toFinset ⊆ S := by
    intro a ha
    obtain ⟨b, hb, rfl⟩ := List.mem_map.mp (List.mem_distinct.mp (List.mem_toFinset.mp ha))
    exact hes b hb
  have hlen : ((arrivals es).map Prod.fst).distinct.length ≤ 36 := by
    rw [← List.toFinset_card_of_nodup hnodup]
    exact (Finset.card_le_card hsub).trans hS
  rw [admittedNodes, admitted, List.take_of_length_le hlen, List.mem_distinct]

/-- As long as the discoveries find no more than 36 nodes in all, no channel is starved. -/
theorem Run.noneStarved (h : Run es c) {S : Finset N} (hS : S.card ≤ 36)
    (hes : ∀ a ∈ arrivals es, a.1 ∈ S) (hc : ∀ node ∈ c.channelsInfo.nodes, node ∈ S) :
    NoneStarved es c where
  accepts node hnode values hv := by
    have harr : arrivals (es ++ [.sampled node values]) = arrivals es ++ [(node, average values)] := by
      rw [arrivals_concat, Event.arrival, if_neg (by simpa using hv), Option.toList_some]
    rw [h.accepts node hv, mem_admittedNodes hS, harr]
    · simp
    · intro a ha
      rw [harr, List.mem_append, List.mem_singleton] at ha
      rcases ha with ha | rfl
      · exact hes a ha
      · exact hc node hnode
  frames order node name value hn hs := by
    have hlast := lastValue_of_lastSample hs
    rw [h.lookup_getFrame order hn, h.lookup_received hs, if_pos]
    rw [mem_admittedNodes hS hes]
    by_contra hmem
    rw [lastValue, List.lookup_eq_none_iff.mpr] at hlast
    · cases hlast
    · intro a ha
      rw [bne_iff_ne]
      rintro rfl
      exact hmem (List.mem_map_of_mem (List.mem_reverse.mp ha))

/-! ## A rediscovery that starves -/

/-- A sequence of events. -/
def handleAll (c : Client N F) (es : List (Event N F)) : Client N F := es.foldl handle c

theorem Run.samples (values : List F) : ∀ (nodes : List N) {es : List (Event N F)} {c : Client N F},
    Run es c → (∀ node ∈ nodes, node ∈ c.channelsInfo.nodes) →
      Run (es ++ nodes.map fun node => .sampled node values)
        (c.handleAll (nodes.map fun node => .sampled node values))
  | [], es, c, h, _ => by simpa [handleAll] using h
  | node :: nodes, es, c, h, hns => by
    have hrest := Run.samples values nodes (h.handle _ _ (.sampled node values)
      (hns node List.mem_cons_self)) fun n hn => by
        rw [handle_sampled]
        exact hns n (List.mem_cons_of_mem _ hn)
    rw [List.append_assoc] at hrest
    exact hrest

/-- A client that has been created. -/
noncomputable def created : Client ℕ ℝ := ⟨⟨∅, 36, Nat.zero_le _⟩, ⟨∅⟩⟩

/-- The channels of the first session: nodes `0, …, 35`. -/
def firstSession : DiscoveryResult ℕ where
  nodes := ⟨(List.range 36).map fun i => ⟨i, String.ofList (List.replicate i 'W')⟩, by
    rw [List.NodupKeys, List.keys, List.map_map]
    exact List.nodup_range.map fun i j h => h⟩

/-- After the rediscovery one of the channels has a new node. -/
def secondSession : DiscoveryResult ℕ := ⟨AList.singleton 36 "W1R"⟩

/-- Every channel of the first session is sampled, then the second session begins. -/
noncomputable def rediscovery : List (Event ℕ ℝ) :=
  .discovered firstSession :: (List.range 36).map (fun node => .sampled node [1]) ++
    [.discovered secondSession]

theorem firstSession_allowed (c : Client ℕ ℝ) : (Event.discovered firstSession).Allowed c := by
  refine ⟨by simp [firstSession, UnorderedMap.size, List.keys], ?_⟩
  rw [firstSession]
  dsimp only
  rw [List.map_map]
  refine List.nodup_range.map fun i j h => ?_
  have := congrArg String.length h
  simpa using this

theorem run_rediscovery : Run rediscovery (created.handleAll rediscovery) := by
  have hfirst : Run [.discovered firstSession] (created.handle (.discovered firstSession)) :=
    Run.handle [] created _ (.create created rfl) (firstSession_allowed created)
  have hsamples := hfirst.samples [1] (List.range 36) fun node hnode => by
    show node ∈ firstSession.nodes
    rw [AList.mem_keys]
    simpa [firstSession, List.keys] using hnode
  have hsecond := hsamples.handle _ _ (.discovered secondSession)
    ⟨by decide, List.nodup_singleton _⟩
  rw [handleAll, rediscovery, List.foldl_append, List.foldl_cons]
  exact hsecond

/-- The new node is not accepted. -/
theorem not_forall_noneStarved : ¬ ∀ (es : List (Event ℕ ℝ)) (c : Client ℕ ℝ), Run es c →
    NoneStarved es c := by
  intro h
  have hinfo : (created.handleAll rediscovery).channelsInfo = secondSession := by
    rw [handleAll, rediscovery, List.foldl_concat]
    rfl
  have haccepts := (h _ _ run_rediscovery).accepts 36 (by rw [hinfo]; decide) [1] (by simp)
  rw [run_rediscovery.accepts 36 (by simp)] at haccepts
  have harr : (arrivals (rediscovery ++ [.sampled 36 [1]])).map Prod.fst = List.range 37 := by
    rw [arrivals, rediscovery, List.filterMap_append, List.filterMap_append, List.filterMap_cons,
      List.filterMap_map]
    simp [Event.arrival, Function.comp_def]
    decide
  rw [admittedNodes, admitted, harr, List.distinct_of_nodup List.nodup_range] at haccepts
  exact absurd haccepts (by decide)

/-- `Run.serves` after that rediscovery. -/
theorem serves_rediscovery : Serves rediscovery (created.handleAll rediscovery) :=
  run_rediscovery.serves

end Client

end TPC.System
