import TPC.Lib.Coro
import TPC.System.Client

/-!
# The discovery of the channels

`Client::discover_folders` browses the objects folder, then the `ADC Channels` object that it finds
there, and then every slot of that one. What it finds goes into the channel table, to the handlers of
`initialization_data_received_` and to the subscription.

* `Reference`, `BrowseResult`, `findChild`, `findSlotIds`, `appendChannels`, `discoverFolders`;
* `Members`, `settle`: the rest of `Client::initialize_monitored_items`;
* `Lists`: the table of the channels that the answers list; **`lists_of_run`**;
* **`completeOrFails_iff`**: a discovery is complete or it fails, as long as no browse of a slot fails
  on the server.
-/

namespace TPC.System

/-- `opcua::NodeClass`. -/
inductive NodeClass
  | Unspecified
  | Object
  | Variable
  | Method
  | ObjectType
  | VariableType
  | ReferenceType
  | DataType
  | View
  deriving DecidableEq, Repr

/-- What is read of an `opcua::ReferenceDescription`. -/
structure Reference (N : Type) where
  isForward : Bool
  nodeClass : NodeClass
  /-- `nodeId().isLocal()`. -/
  isLocal : Bool
  nodeId : N
  /-- `browseName().name()`. -/
  browseName : String

/-- The severity bits of a status code. -/
def StatusCode.isBad (code : UInt32) : Bool := 2 ≤ code.toNat / 2 ^ 30

/-- `opcua::BrowseResult`. A browse that fails on the server is answered with a bad status code, and
without references. -/
structure BrowseResult (N : Type) where
  statusCode : UInt32
  references : List (Reference N)
  references_of_isBad : StatusCode.isBad statusCode = true → references = []

/-- The browse has failed on the server. -/
def BrowseResult.isBad {N : Type} (result : BrowseResult N) : Bool := StatusCode.isBad result.statusCode

namespace Discovery

variable {N : Type}

/-- The references that the three searches leave out. -/
def skipped (reference : Reference N) (expectedClass : NodeClass) : Bool :=
  !reference.isForward || reference.nodeClass != expectedClass || !reference.isLocal

def findChild (result : BrowseResult N) (name : String) (expectedClass : NodeClass) : Option N :=
  result.references.findSome? fun reference =>
    if skipped reference expectedClass then none
    else if reference.browseName = name then some reference.nodeId
    else none

/-- `starts_with("Slot ")`. -/
def isSlotName (name : String) : Bool := "Slot ".toList.isPrefixOf name.toList

def findSlotIds (result : BrowseResult N) : List N :=
  result.references.filterMap fun reference =>
    if skipped reference .Object then none
    else if isSlotName reference.browseName then some reference.nodeId
    else none

variable [DecidableEq N]

def appendChannels (result : DiscoveryResult N) (slotResult : BrowseResult N) : DiscoveryResult N :=
  slotResult.references.foldl (fun result reference =>
    if skipped reference .Variable then result
    else ⟨result.nodes.emplace reference.nodeId reference.browseName⟩) result

/-- `Client::discover_folders`. A browse that cannot be sent ends it with the error. -/
def discoverFolders (objectsFolder : N) : Coro N (BrowseResult N) String (DiscoveryResult N) := do
  let root ← .request objectsFolder
  match findChild root "ADC Channels" .Object with
  | none => .throw "Cannot find target channel ID"
  | some targetChannelId =>
    let slotsResult ← .request targetChannelId
    match findSlotIds slotsResult with
    | [] => .throw "No slots found"
    | slotIds => slotIds.foldlM (fun result slotId => do
        let slotResult ← .request slotId
        .ret (appendChannels result slotResult)) ⟨∅⟩

/-- What a discovery changes: the channel table, what the handlers of `initialization_data_received_`
and of `error_occurred_` have been given, and the node list of the last subscription. -/
structure Members (N : Type) where
  channelsInfo : DiscoveryResult N
  received : List (DiscoveryResult N)
  nodeIds : Option (List N)
  errors : List String

omit [DecidableEq N] in
/-- The handler of an exception in `initialize_monitored_items`. -/
def Members.report (m : Members N) (what : String) : Members N :=
  { m with errors := m.errors ++ ["[Client error]: " ++ what] }

/-- `Client::create_subscription`, with the exception that `Subscription::create_subscription` throws
after it has taken the node list. -/
def Members.createSubscription (m : Members N) (order : UnorderedMap.Enumeration N String)
    (discovery : DiscoveryResult N) (subscription : Option String) : Members N :=
  let m := { m with nodeIds := some ((order.entries discovery.nodes).map Sigma.fst) }
  match subscription with
  | some what => m.report what
  | none => m

/-- The end of `initialize_monitored_items`, with the exceptions of the handlers of
`initialization_data_received_` and of the subscription. -/
def Members.settle (m : Members N) (order : UnorderedMap.Enumeration N String)
    (handlers subscription : Option String) : Except String (DiscoveryResult N) → Members N
  | .error what => m.report what
  | .ok discovery =>
    let m := { m with channelsInfo := discovery, received := m.received ++ [discovery] }
    match handlers with
    | some what => m.report what
    | none => m.createSubscription order discovery subscription

/-! ## What the answers list -/

/-- A forward, local reference to a node of the class. -/
def Is (reference : Reference N) (nodeClass : NodeClass) : Prop :=
  reference.isForward = true ∧ reference.isLocal = true ∧ reference.nodeClass = nodeClass

instance (reference : Reference N) (nodeClass : NodeClass) : Decidable (Is reference nodeClass) :=
  inferInstanceAs (Decidable (_ ∧ _ ∧ _))

/-- The first `ADC Channels` object. -/
def channelsObject (result : BrowseResult N) : Option N :=
  (result.references.find? fun reference =>
    Is reference .Object ∧ reference.browseName = "ADC Channels").map Reference.nodeId

/-- All `Slot …` objects. -/
def slotObjects (result : BrowseResult N) : List N :=
  (result.references.filter fun reference =>
    Is reference .Object ∧ isSlotName reference.browseName = true).map Reference.nodeId

/-- The browse name of the first variable with the node. -/
def channelName (references : List (Reference N)) (node : N) : Option String :=
  (references.find? fun reference => Is reference .Variable ∧ reference.nodeId = node).map
    Reference.browseName

/-- The requests and answers are those of a discovery, and the table maps exactly the channels that
the answers for the slots list. -/
def Lists (objectsFolder : N) (tr : List (N × Except String (BrowseResult N)))
    (table : DiscoveryResult N) : Prop :=
  ∃ (root channels : BrowseResult N) (target : N) (slots : List (N × BrowseResult N)),
    tr = (objectsFolder, .ok root) :: (target, .ok channels) :: slots.map (fun p => (p.1, .ok p.2)) ∧
    channelsObject root = some target ∧ slotObjects channels = slots.map Prod.fst ∧
    ∀ node, table.nodes.lookup node = channelName (slots.flatMap fun p => p.2.references) node

/-! ## The searches -/

omit [DecidableEq N] in
theorem skipped_iff {reference : Reference N} {nodeClass : NodeClass} :
    skipped reference nodeClass = true ↔ ¬ Is reference nodeClass := by
  unfold skipped Is
  cases reference.isForward <;> cases reference.isLocal <;> simp

omit [DecidableEq N] in
theorem findSome?_ite {p q : Reference N → Prop} [DecidablePred p] [DecidablePred q]
    (l : List (Reference N)) :
    (l.findSome? fun r => if p r then none else if q r then some r.nodeId else none) =
      (l.find? fun r => ¬ p r ∧ q r).map Reference.nodeId := by
  induction l with
  | nil => rfl
  | cons r l ih =>
    by_cases hp : p r
    · simpa [hp] using ih
    · by_cases hq : q r
      · simp [hp, hq]
      · simpa [hp, hq] using ih

omit [DecidableEq N] in
theorem findChild_adcChannels (result : BrowseResult N) :
    findChild result "ADC Channels" .Object = channelsObject result := by
  unfold findChild channelsObject
  rw [findSome?_ite]
  simp only [skipped_iff, not_not]

omit [DecidableEq N] in
theorem findSlotIds_eq (result : BrowseResult N) : findSlotIds result = slotObjects result := by
  unfold findSlotIds slotObjects
  induction result.references with
  | nil => rfl
  | cons r l ih =>
    by_cases hr : Is r .Object
    · by_cases hn : isSlotName r.browseName = true
      · simpa [skipped_iff, hr, hn] using ih
      · simpa [skipped_iff, hr, hn] using ih
    · simpa [skipped_iff, hr] using ih

theorem channelName_append (l₁ l₂ : List (Reference N)) (node : N) :
    channelName (l₁ ++ l₂) node = (channelName l₁ node).or (channelName l₂ node) := by
  unfold channelName
  rw [List.find?_append, Option.map_or]

/-- **One slot**: its channels are added, the ones that the table has already stay. -/
theorem lookup_appendChannels (result : DiscoveryResult N) (slotResult : BrowseResult N) (node : N) :
    (appendChannels result slotResult).nodes.lookup node =
      (result.nodes.lookup node).or (channelName slotResult.references node) := by
  unfold appendChannels
  induction slotResult.references generalizing result with
  | nil => simp [channelName]
  | cons r l ih =>
    rw [List.foldl_cons, ih]
    by_cases hr : Is r .Variable
    · rw [if_neg (by simpa [skipped_iff] using hr)]
      dsimp only
      rw [UnorderedMap.lookup_emplace, Option.or_assoc]
      congr 1
      by_cases hn : r.nodeId = node
      · simp [channelName, hr, hn]
      · simp [channelName, hn]
    · rw [if_pos (skipped_iff.mpr hr)]
      simp [channelName, hr]

/-- **All slots**: the first name of a node is kept. -/
theorem lookup_foldl_appendChannels (slots : List (N × BrowseResult N)) (result : DiscoveryResult N)
    (node : N) : (slots.foldl (fun result p => appendChannels result p.2) result).nodes.lookup node =
      (result.nodes.lookup node).or (channelName (slots.flatMap fun p => p.2.references) node) := by
  induction slots generalizing result with
  | nil => simp [channelName]
  | cons p slots ih =>
    rw [List.foldl_cons, ih, lookup_appendChannels, Option.or_assoc, List.flatMap_cons,
      channelName_append]

/-! ## Runs -/

variable {objectsFolder : N} {tr : List (N × Except String (BrowseResult N))}

theorem run_slots {slotsResult : BrowseResult N} {res : Except String (DiscoveryResult N)}
    (h : Coro.Run (match findSlotIds slotsResult with
      | [] => .throw "No slots found"
      | slotIds => slotIds.foldlM (fun result slotId => do
          let slotResult ← .request slotId
          .ret (appendChannels result slotResult)) ⟨∅⟩) tr res) :
    match res with
    | .error _ => tr = [] ∨ ∃ p ∈ tr, ∃ e, p.2 = .error e
    | .ok table => slotObjects slotsResult ≠ [] ∧ ∃ slots : List (N × BrowseResult N),
        slotObjects slotsResult = slots.map Prod.fst ∧ tr = slots.map (fun p => (p.1, .ok p.2)) ∧
        ∀ node, table.nodes.lookup node = channelName (slots.flatMap fun p => p.2.references) node := by
  rw [findSlotIds_eq] at h
  cases hids : slotObjects slotsResult with
  | nil =>
    rw [hids] at h
    obtain ⟨rfl, rfl⟩ := Coro.run_throw.mp h
    exact .inl rfl
  | cons id ids =>
    rw [hids] at h
    cases res with
    | error e => exact .inr (Coro.run_foldlM_error h)
    | ok table =>
      obtain ⟨slots, hslots, htr, htab⟩ := Coro.run_foldlM_ok.mp h
      refine ⟨List.cons_ne_nil _ _, slots, hslots.symm, htr, fun node => ?_⟩
      rw [htab, lookup_foldl_appendChannels, AList.lookup_empty, Option.none_or]

/-- **How a discovery succeeds**: it has found the `ADC Channels` object and slots there, and all of
its requests have been answered. -/
theorem run_discoverFolders_ok {table : DiscoveryResult N}
    (h : Coro.Run (discoverFolders objectsFolder) tr (.ok table)) :
    ∃ (root channels : BrowseResult N) (target : N) (slots : List (N × BrowseResult N)),
      tr = (objectsFolder, .ok root) :: (target, .ok channels) :: slots.map (fun p => (p.1, .ok p.2)) ∧
      channelsObject root = some target ∧ slotObjects channels ≠ [] ∧
      slotObjects channels = slots.map Prod.fst ∧
      ∀ node, table.nodes.lookup node = channelName (slots.flatMap fun p => p.2.references) node := by
  rcases Coro.run_request_bind.mp h with ⟨e, -, he⟩ | ⟨root, tr₁, rfl, h₁⟩
  · cases he
  rw [findChild_adcChannels] at h₁
  cases htarget : channelsObject root with
  | none =>
    rw [htarget] at h₁
    cases (Coro.run_throw.mp h₁).2
  | some target =>
    rw [htarget] at h₁
    rcases Coro.run_request_bind.mp h₁ with ⟨e, -, he⟩ | ⟨channels, tr₂, rfl, h₂⟩
    · cases he
    · obtain ⟨hne, slots, hids, rfl, htab⟩ := run_slots h₂
      exact ⟨root, channels, target, slots, rfl, htarget, hne, hids, htab⟩

/-- **How a discovery fails**: a request could not be sent, or it has not come to the slots. -/
theorem run_discoverFolders_error {e : String}
    (h : Coro.Run (discoverFolders objectsFolder) tr (.error e)) :
    tr.length ≤ 2 ∨ ∃ p ∈ tr, ∃ e', p.2 = .error e' := by
  rcases Coro.run_request_bind.mp h with ⟨e', rfl, -⟩ | ⟨root, tr₁, rfl, h₁⟩
  · exact .inr ⟨_, List.mem_cons_self, e', rfl⟩
  rw [findChild_adcChannels] at h₁
  cases htarget : channelsObject root with
  | none =>
    rw [htarget] at h₁
    obtain ⟨rfl, -⟩ := Coro.run_throw.mp h₁
    exact .inl (Nat.le_succ 1)
  | some target =>
    rw [htarget] at h₁
    rcases Coro.run_request_bind.mp h₁ with ⟨e', rfl, -⟩ | ⟨channels, tr₂, rfl, h₂⟩
    · exact .inr ⟨_, List.mem_cons_of_mem _ List.mem_cons_self, e', rfl⟩
    · rcases run_slots h₂ with rfl | ⟨p, hp, he⟩
      · exact .inl le_rfl
      · exact .inr ⟨p, List.mem_cons_of_mem _ (List.mem_cons_of_mem _ hp), he⟩

omit [DecidableEq N] in
theorem isBad_of_channelsObject {result : BrowseResult N} {target : N}
    (h : channelsObject result = some target) : result.isBad = false := by
  refine Bool.eq_false_of_not_eq_true fun hbad => ?_
  rw [channelsObject, result.references_of_isBad hbad] at h
  cases h

omit [DecidableEq N] in
theorem isBad_of_slotObjects {result : BrowseResult N} (h : slotObjects result ≠ []) :
    result.isBad = false := by
  refine Bool.eq_false_of_not_eq_true fun hbad => h ?_
  rw [slotObjects, result.references_of_isBad hbad]
  rfl

/-- The browse has been sent and has failed on the server. -/
def hasFailed : Except String (BrowseResult N) → Bool
  | .ok result => result.isBad
  | .error _ => false

/-- The discovery fails and leaves the table, the handlers of `initialization_data_received_` and the
node list alone; or every browse has succeeded, and the table is complete. -/
def CompleteOrFails (objectsFolder : N) (tr : List (N × Except String (BrowseResult N)))
    (res : Except String (DiscoveryResult N)) (m m' : Members N) : Prop :=
  ((∃ e, res = .error e) ∧ m'.channelsInfo = m.channelsInfo ∧ m'.received = m.received ∧
    m'.nodeIds = m.nodeIds) ∨
  (∀ p ∈ tr, ∃ b, p.2 = .ok b ∧ b.isBad = false) ∧ Lists objectsFolder tr m'.channelsInfo

omit [DecidableEq N] in
theorem settle_ok_channelsInfo (m : Members N) (order : UnorderedMap.Enumeration N String)
    (handlers subscription : Option String) (table : DiscoveryResult N) :
    (m.settle order handlers subscription (.ok table)).channelsInfo = table := by
  cases handlers <;> cases subscription <;> rfl

omit [DecidableEq N] in
theorem settle_ok_nodeIds (m : Members N) (order : UnorderedMap.Enumeration N String)
    (handlers subscription : Option String) (table : DiscoveryResult N) :
    (m.settle order handlers subscription (.ok table)).nodeIds =
      if handlers.isNone then some ((order.entries table.nodes).map Sigma.fst) else m.nodeIds := by
  cases handlers <;> cases subscription <;> rfl

/-- **Completeness**: a discovery is complete or it fails exactly when one of its browses could not be
sent, or none of those of the slots, the third and the later ones, has failed on the server. -/
theorem completeOrFails_iff {res : Except String (DiscoveryResult N)}
    (h : Coro.Run (discoverFolders objectsFolder) tr res) (m : Members N)
    (order : UnorderedMap.Enumeration N String) (handlers subscription : Option String) :
    CompleteOrFails objectsFolder tr res m (m.settle order handlers subscription res) ↔
      (∃ p ∈ tr, ∃ e, p.2 = .error e) ∨ ∀ p ∈ tr.drop 2, hasFailed p.2 = false := by
  cases res with
  | error e =>
    refine ⟨fun _ => ?_, fun _ => .inl ⟨⟨e, rfl⟩, rfl, rfl, rfl⟩⟩
    rcases run_discoverFolders_error h with hlen | herror
    · rw [List.drop_eq_nil_of_le hlen]
      exact .inr nofun
    · exact .inl herror
  | ok table =>
    rw [CompleteOrFails, settle_ok_channelsInfo]
    obtain ⟨root, channels, target, slots, rfl, htarget, hne, hids, htab⟩ := run_discoverFolders_ok h
    constructor
    · rintro (⟨⟨e, he⟩, -⟩ | ⟨hgood, -⟩)
      · cases he
      · refine .inr fun p hp => ?_
        obtain ⟨b, hb, hbad⟩ := hgood p (List.mem_of_mem_drop hp)
        rw [hb]
        exact hbad
    · intro hslots
      refine .inr ⟨fun p hp => ?_, root, channels, target, slots, rfl, htarget, hids, htab⟩
      obtain ⟨b, hb⟩ := h.ok_of_mem hp
      refine ⟨b, hb, ?_⟩
      rcases hslots with ⟨p', hp', e, he⟩ | hslots
      · obtain ⟨b', hb'⟩ := h.ok_of_mem hp'
        rw [he] at hb'
        cases hb'
      rcases List.mem_cons.mp hp with rfl | hp
      · cases hb
        exact isBad_of_channelsObject htarget
      rcases List.mem_cons.mp hp with rfl | hp
      · cases hb
        exact isBad_of_slotObjects hne
      · have hfailed := hslots p hp
        rw [hb] at hfailed
        exact hfailed

/-! ## A server with two slots -/

/-- A good answer. -/
def answer (references : List (Reference ℕ)) : Except String (BrowseResult ℕ) :=
  .ok ⟨0, references, fun h => absurd h (by decide)⟩

/-- `BadNodeIdUnknown`. -/
def badAnswer : Except String (BrowseResult ℕ) := .ok ⟨0x80340000, [], fun _ => rfl⟩

/-- Node `1` is `ADC Channels`, nodes `2` and `3` are its slots, with one channel each. -/
def server (lastSlot : Except String (BrowseResult ℕ)) : ℕ → Except String (BrowseResult ℕ)
  | 0 => answer [⟨true, .Object, true, 1, "ADC Channels"⟩]
  | 1 => answer [⟨true, .Object, true, 2, "Slot 1"⟩, ⟨true, .Object, true, 3, "Slot 2"⟩]
  | 2 => answer [⟨true, .Variable, true, 4, "W1R"⟩]
  | _ => lastSlot

/-- Before the first discovery. -/
def before : Members ℕ := ⟨⟨∅⟩, [], none, []⟩

/-- The entries in the order in which they are stored. -/
def stored : UnorderedMap.Enumeration ℕ String := ⟨fun m => m.entries, fun _ => .refl _⟩

/-- The browse of the second slot fails, and a table without its channels is installed. -/
theorem not_forall_completeOrFails : ¬ ∀ (tr : List (ℕ × Except String (BrowseResult ℕ)))
    (res : Except String (DiscoveryResult ℕ)), Coro.Run (discoverFolders 0) tr res →
      CompleteOrFails 0 tr res before (before.settle stored none none res) := by
  intro h
  rcases h _ _ (Coro.run_against (server badAnswer) (discoverFolders 0)) with ⟨⟨e, he⟩, -⟩ | ⟨hgood, -⟩
  · have hok : ((discoverFolders 0).against (server badAnswer)).2.isOk = true := by decide +kernel
    rw [he] at hok
    cases hok
  · have hfailed : ∃ p ∈ ((discoverFolders 0).against (server badAnswer)).1, hasFailed p.2 = true := by
      decide +kernel
    obtain ⟨p, hp, hp'⟩ := hfailed
    obtain ⟨b, hb, hbad⟩ := hgood p hp
    rw [hb] at hp'
    rw [hasFailed, hbad] at hp'
    cases hp'

/-- `completeOrFails_iff` for a server that answers all browses. -/
theorem completeOrFails_server :
    CompleteOrFails 0 ((discoverFolders 0).against (server (answer []))).1
      ((discoverFolders 0).against (server (answer []))).2 before
      (before.settle stored none none ((discoverFolders 0).against (server (answer []))).2) :=
  (completeOrFails_iff (Coro.run_against (server (answer [])) (discoverFolders 0)) before stored none
    none).mpr (.inr (by decide +kernel))

end Discovery

end TPC.System
