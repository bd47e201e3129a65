import Mathlib
import TPC.Lib.UnorderedMap

/-!
# The frame receiver

`client/frame_receiver.cpp`: a last-value store that admits as many nodes as it has room for.

* `FrameReceiver`, `create`, `addBack`, `getFrame`;
* `receive`, `receiveAll`: a store after any sequence of arrivals;
* `Holds`, **`holds_receiveAll`**: it holds the first nodes to arrive, each with its last value;
* **`Holds.isOk_addBack`**: an arrival is accepted when its node is among the first;
* `Op`, `step`, `after`: histories of `add_back` and `get_frame`;
* `BoundedStore`, **`boundedStore`**: a history is one of a bounded last-value store.
-/

namespace TPC.System

/-- `FrameReceiver`, which never holds more than its capacity. -/
structure FrameReceiver (N F : Type) where
  received : UnorderedMap N F
  capacity : UInt16
  bounded : received.size ≤ capacity.toNat

namespace FrameReceiver

variable {N F : Type} [DecidableEq N]

/-- `FrameReceiver::create`. -/
def create (receiveCount : UInt16) : Except String (FrameReceiver N F) :=
  if receiveCount = 0 then .error "Received queue capacity must be greater than zero"
  else .ok ⟨∅, receiveCount, Nat.zero_le _⟩

theorem size_insert_le {m : UnorderedMap N F} {n : ℕ} (hm : m.size ≤ n) {node : N}
    (h : ¬ (node ∉ m ∧ m.size ≥ n)) (value : F) : UnorderedMap.size (m.insert node value) ≤ n := by
  by_cases hmem : node ∈ m
  · rwa [UnorderedMap.size_insert_of_mem hmem]
  · have hlt : ¬ m.size ≥ n := fun hn => h ⟨hmem, hn⟩
    rw [UnorderedMap.size, UnorderedMap.keys_insert_of_notMem hmem, List.length_cons]
    exact Nat.lt_of_not_ge hlt

/-- `FrameReceiver::add_back`. -/
def addBack (rc : FrameReceiver N F) (node : N) (value : F) : Except String (FrameReceiver N F) :=
  if h : node ∉ rc.received ∧ rc.received.size ≥ rc.capacity.toNat then
    .error "Received queue capacity was exceeded"
  else .ok { rc with
    received := rc.received.insert node value
    bounded := size_insert_le rc.bounded h value }

omit [DecidableEq N] in
/-- `FrameReceiver::get_frame`. -/
def getFrame (rc : FrameReceiver N F) : Except String (UnorderedMap N F) :=
  if rc.received.size = 0 then .error "Frame received queue is empty" else .ok rc.received

/-! ## Runs -/

/-- One arrival; a refused one changes nothing. -/
def receive (rc : FrameReceiver N F) (arrival : N × F) : FrameReceiver N F :=
  match rc.addBack arrival.1 arrival.2 with
  | .ok rc' => rc'
  | .error _ => rc

/-- The nodes that a store of the given capacity admits. -/
def admitted (capacity : ℕ) (arrivals : List (N × F)) : List N :=
  (arrivals.map Prod.fst).distinct.take capacity

/-- The value of the last arrival of a node. -/
def lastValue (arrivals : List (N × F)) (node : N) : Option F := arrivals.reverse.lookup node

theorem lastValue_concat (arrivals : List (N × F)) (a : N × F) (node : N) :
    lastValue (arrivals ++ [a]) node = if node = a.1 then some a.2 else lastValue arrivals node := by
  rw [lastValue, List.reverse_append, List.reverse_singleton, List.singleton_append,
    List.lookup_cons, lastValue]
  by_cases h : node = a.1
  · rw [if_pos h, h, beq_self_eq_true]
  · rw [if_neg h, beq_eq_false_iff_ne.mpr h]

/-- The store holds the first nodes to arrive, each with its last value. -/
structure Holds (rc : FrameReceiver N F) (arrivals : List (N × F)) : Prop where
  keys : rc.received.keys.Perm (admitted rc.capacity.toNat arrivals)
  values : ∀ node ∈ rc.received, rc.received.lookup node = lastValue arrivals node

variable {rc rc' : FrameReceiver N F} {arrivals : List (N × F)} {a : N × F} {node : N}

theorem Holds.mem (h : Holds rc arrivals) :
    node ∈ rc.received ↔ node ∈ admitted rc.capacity.toNat arrivals := by
  rw [AList.mem_keys, h.keys.mem_iff]

theorem Holds.size (h : Holds rc arrivals) :
    rc.received.size = min rc.capacity.toNat (arrivals.map Prod.fst).distinct.length := by
  rw [UnorderedMap.size, h.keys.length_eq, admitted, List.length_take]

theorem admitted_concat (capacity : ℕ) (arrivals : List (N × F)) (a : N × F) :
    admitted capacity (arrivals ++ [a]) =
      if a.1 ∉ arrivals.map Prod.fst ∧ (arrivals.map Prod.fst).distinct.length < capacity then
        admitted capacity arrivals ++ [a.1]
      else admitted capacity arrivals := by
  rw [admitted, List.map_append, List.map_singleton, admitted]
  by_cases hmem : a.1 ∈ arrivals.map Prod.fst
  · rw [List.distinct_concat_of_mem hmem, if_neg fun h => h.1 hmem]
  · rw [List.distinct_concat_of_notMem hmem, List.take_append]
    split_ifs with h
    · rw [List.take_of_length_le (l := [a.1]) (by simp; omega)]
    · have hlen : capacity - (arrivals.map Prod.fst).distinct.length = 0 :=
        Nat.sub_eq_zero_of_le (Nat.le_of_not_lt fun hlt => h ⟨hmem, hlt⟩)
      rw [hlen, List.take_zero, List.append_nil]

theorem Holds.size_lt_iff (h : Holds rc arrivals) (hnode : node ∉ rc.received) :
    rc.received.size < rc.capacity.toNat ↔ node ∉ arrivals.map Prod.fst ∧
      (arrivals.map Prod.fst).distinct.length < rc.capacity.toNat := by
  rw [h.size]
  constructor
  · intro hlt
    have hlen : (arrivals.map Prod.fst).distinct.length < rc.capacity.toNat := by omega
    rw [h.mem, admitted, List.take_of_length_le (Nat.le_of_lt hlen), List.mem_distinct] at hnode
    exact ⟨hnode, hlen⟩
  · rintro ⟨-, hlen⟩
    omega

theorem addBack_of_refused (h : node ∉ rc.received ∧ rc.received.size ≥ rc.capacity.toNat)
    (value : F) : rc.addBack node value = .error "Received queue capacity was exceeded" := dif_pos h

theorem addBack_of_not_refused (h : ¬ (node ∉ rc.received ∧ rc.received.size ≥ rc.capacity.toNat))
    (value : F) : rc.addBack node value = .ok { rc with
      received := rc.received.insert node value
      bounded := size_insert_le rc.bounded h value } := dif_neg h

/-- A node is refused exactly when it is not among the first. -/
theorem Holds.refused_iff (h : Holds rc arrivals) (value : F) :
    node ∉ rc.received ∧ rc.received.size ≥ rc.capacity.toNat ↔
      node ∉ admitted rc.capacity.toNat (arrivals ++ [(node, value)]) := by
  rw [admitted_concat]
  by_cases hnode : node ∈ rc.received
  · have hmem : node ∈ admitted rc.capacity.toNat arrivals := h.mem.mp hnode
    split_ifs <;> simp [hnode, hmem]
  · have hroom := h.size_lt_iff hnode
    have hmem : node ∉ admitted rc.capacity.toNat arrivals := mt h.mem.mpr hnode
    split_ifs with hc
    · simp [hroom.mpr hc]
    · exact ⟨fun _ => hmem, fun _ => ⟨hnode, not_lt.mp (mt hroom.mp hc)⟩⟩

/-- **An arrival is accepted exactly when its node is among the first.** -/
theorem Holds.isOk_addBack (h : Holds rc arrivals) (node : N) (value : F) :
    (∃ rc', rc.addBack node value = .ok rc') ↔
      node ∈ admitted rc.capacity.toNat (arrivals ++ [(node, value)]) := by
  by_cases hr : node ∉ rc.received ∧ rc.received.size ≥ rc.capacity.toNat
  · rw [addBack_of_refused hr]
    exact ⟨nofun, fun hmem => absurd hmem ((h.refused_iff value).mp hr)⟩
  · rw [addBack_of_not_refused hr]
    exact ⟨fun _ => not_not.mp (mt (h.refused_iff value).mpr hr), fun _ => ⟨_, rfl⟩⟩

theorem capacity_receive (rc : FrameReceiver N F) (a : N × F) :
    (rc.receive a).capacity = rc.capacity := by
  unfold receive addBack
  split_ifs <;> rfl

/-- **One arrival.** -/
theorem Holds.receive (h : Holds rc arrivals) (a : N × F) :
    Holds (rc.receive a) (arrivals ++ [a]) := by
  obtain ⟨node, value⟩ := a
  by_cases hr : node ∉ rc.received ∧ rc.received.size ≥ rc.capacity.toNat
  · -- refused: neither the store nor the admitted nodes change
    have hsame : admitted rc.capacity.toNat (arrivals ++ [(node, value)]) =
        admitted rc.capacity.toNat arrivals := by
      rw [admitted_concat, if_neg]
      exact fun hc => absurd ((h.size_lt_iff hr.1).mpr hc) (not_lt.mpr hr.2)
    rw [FrameReceiver.receive, addBack_of_refused hr]
    refine ⟨by rw [hsame]; exact h.keys, fun j hj => ?_⟩
    rw [lastValue_concat, if_neg (ne_of_mem_of_not_mem hj hr.1), h.values j hj]
  · rw [FrameReceiver.receive, addBack_of_not_refused hr]
    refine ⟨?_, fun j hj => ?_⟩
    · show (rc.received.insert node value).keys.Perm _
      rw [admitted_concat]
      by_cases hnode : node ∈ rc.received
      · have hmem : node ∈ arrivals.map Prod.fst :=
          List.mem_distinct.mp (List.mem_of_mem_take (h.mem.mp hnode))
        rw [if_neg fun hc => hc.1 hmem, AList.keys_insert]
        exact (List.perm_cons_erase (AList.mem_keys.mp hnode)).symm.trans h.keys
      · have hlt : rc.received.size < rc.capacity.toNat := not_le.mp fun hn => hr ⟨hnode, hn⟩
        rw [if_pos ((h.size_lt_iff hnode).mp hlt), UnorderedMap.keys_insert_of_notMem hnode]
        exact (h.keys.cons node).trans (List.perm_append_singleton node _).symm
    · show (rc.received.insert node value).lookup j = _
      rw [lastValue_concat]
      by_cases hjn : j = node
      · rw [if_pos hjn, hjn, AList.lookup_insert]
      · rw [if_neg hjn, AList.lookup_insert_ne hjn]
        exact h.values j (((AList.mem_insert _).mp hj).resolve_left hjn)

/-- The store after a sequence of arrivals. -/
def receiveAll (rc : FrameReceiver N F) (arrivals : List (N × F)) : FrameReceiver N F :=
  arrivals.foldl receive rc

theorem capacity_receiveAll (rc : FrameReceiver N F) (arrivals : List (N × F)) :
    (rc.receiveAll arrivals).capacity = rc.capacity := by
  induction arrivals using List.reverseRecOn with
  | nil => rfl
  | append_singleton arrivals a ih =>
    rw [receiveAll, List.foldl_concat, capacity_receive]
    exact ih

theorem holds_create {receiveCount : UInt16} (h : create receiveCount = .ok rc) : Holds rc [] := by
  unfold create at h
  split_ifs at h
  cases h
  exact ⟨by simp [admitted, List.distinct], nofun⟩

/-- **A store holds the first nodes to arrive, each with its last value.** -/
theorem holds_receiveAll {receiveCount : UInt16} (h : create receiveCount = .ok rc)
    (arrivals : List (N × F)) : Holds (rc.receiveAll arrivals) arrivals := by
  induction arrivals using List.reverseRecOn with
  | nil => exact holds_create h
  | append_singleton arrivals a ih =>
    rw [receiveAll, List.foldl_concat]
    exact ih.receive a

/-! ## Histories -/

/-- A call. -/
inductive Op (N F : Type)
  | addBack (node : N) (value : F)
  | getFrame

/-- What an `add_back` adds. -/
def Op.arrival : Op N F → Option (N × F)
  | .addBack node value => some (node, value)
  | .getFrame => none

/-- The store after a call. -/
def step (rc : FrameReceiver N F) : Op N F → FrameReceiver N F
  | .addBack node value => rc.receive (node, value)
  | .getFrame => rc

/-- The store after a sequence of calls. -/
def after (rc : FrameReceiver N F) (ops : List (Op N F)) : FrameReceiver N F := ops.foldl step rc

/-- What a sequence of calls adds. -/
def arrivalsOf (ops : List (Op N F)) : List (N × F) := ops.filterMap Op.arrival

/-- A last-value store for the first nodes to arrive, over a history that begins with `rc`. -/
structure BoundedStore (rc : FrameReceiver N F) (ops : List (Op N F)) : Prop where
  /-- The nodes are the first ones to arrive, -/
  nodes : (rc.after ops).received.keys.Perm (admitted rc.capacity.toNat (arrivalsOf ops))
  size : (rc.after ops).received.size =
    min rc.capacity.toNat ((arrivalsOf ops).map Prod.fst).distinct.length
  /-- each with its last value. -/
  values : ∀ node ∈ (rc.after ops).received,
    (rc.after ops).received.lookup node = lastValue (arrivalsOf ops) node
  /-- `add_back` fails for the other nodes, and then changes nothing; -/
  refuses : ∀ pre node value post, ops = pre ++ .addBack node value :: post →
    ((∃ e, (rc.after pre).addBack node value = .error e) ↔
      node ∉ admitted rc.capacity.toNat (arrivalsOf ops)) ∧
    ((∃ e, (rc.after pre).addBack node value = .error e) →
      rc.after (pre ++ [.addBack node value]) = rc.after pre)
  /-- when it succeeds, it changes the entry of its node. -/
  changes : ∀ pre node value post, ops = pre ++ .addBack node value :: post →
    ∀ rc', (rc.after pre).addBack node value = .ok rc' →
      rc.after (pre ++ [.addBack node value]) = rc' ∧ rc'.received.lookup node = some value ∧
        ∀ j, j ≠ node → rc'.received.lookup j = (rc.after pre).received.lookup j
  /-- `get_frame` shows the store, and fails while nothing has been added. -/
  frames : ∀ pre post, ops = pre ++ .getFrame :: post →
    rc.after (pre ++ [.getFrame]) = rc.after pre ∧
    ((∃ e, (rc.after pre).getFrame = .error e) ↔ arrivalsOf pre = []) ∧
      ∀ frame, (rc.after pre).getFrame = .ok frame → frame = (rc.after pre).received

theorem after_concat (rc : FrameReceiver N F) (ops : List (Op N F)) (op : Op N F) :
    rc.after (ops ++ [op]) = (rc.after ops).step op := List.foldl_concat _ _ _ _

omit [DecidableEq N] in
theorem arrivalsOf_append (ops ops' : List (Op N F)) :
    arrivalsOf (ops ++ ops') = arrivalsOf ops ++ arrivalsOf ops' := List.filterMap_append

theorem after_eq (rc : FrameReceiver N F) (ops : List (Op N F)) :
    rc.after ops = rc.receiveAll (arrivalsOf ops) := by
  induction ops using List.reverseRecOn with
  | nil => rfl
  | append_singleton ops op ih =>
    rw [after_concat, arrivalsOf_append, ih]
    cases op with
    | addBack node value =>
      show (rc.receiveAll (arrivalsOf ops)).receive _ = rc.receiveAll (arrivalsOf ops ++ [_])
      rw [receiveAll, receiveAll, List.foldl_concat]
    | getFrame =>
      show _ = rc.receiveAll (arrivalsOf ops ++ [])
      rw [List.append_nil]
      rfl

theorem capacity_after (rc : FrameReceiver N F) (ops : List (Op N F)) :
    (rc.after ops).capacity = rc.capacity := by
  rw [after_eq, capacity_receiveAll]

theorem holds_after {receiveCount : UInt16} (h : create receiveCount = .ok rc) (ops : List (Op N F)) :
    Holds (rc.after ops) (arrivalsOf ops) := by
  rw [after_eq]
  exact holds_receiveAll h (arrivalsOf ops)

/-- Whether a node is among the first is known when it arrives. -/
theorem mem_admitted_append (capacity : ℕ) {arrivals : List (N × F)}
    (hnode : node ∈ arrivals.map Prod.fst) (later : List (N × F)) :
    node ∈ admitted capacity (arrivals ++ later) ↔ node ∈ admitted capacity arrivals := by
  obtain ⟨rest, hrest, hnew⟩ :=
    List.exists_distinct_append (arrivals.map Prod.fst) (later.map Prod.fst)
  rw [admitted, List.map_append, hrest, List.take_append, List.mem_append, admitted]
  exact or_iff_left fun hmem => hnew node (List.mem_of_mem_take hmem) hnode

theorem receive_of_ok (h : rc.addBack a.1 a.2 = .ok rc') : rc.receive a = rc' := by
  rw [receive, h]

theorem receive_of_error {e : String} (h : rc.addBack a.1 a.2 = .error e) : rc.receive a = rc := by
  rw [receive, h]

theorem Holds.isError_addBack (h : Holds rc arrivals) (node : N) (value : F) :
    (∃ e, rc.addBack node value = .error e) ↔
      node ∉ admitted rc.capacity.toNat (arrivals ++ [(node, value)]) := by
  rw [← h.isOk_addBack]
  cases rc.addBack node value <;> simp

theorem received_of_addBack {value : F} (h : rc.addBack node value = .ok rc') :
    rc'.received = rc.received.insert node value := by
  by_cases hr : node ∉ rc.received ∧ rc.received.size ≥ rc.capacity.toNat
  · rw [addBack_of_refused hr] at h
    cases h
  · rw [addBack_of_not_refused hr] at h
    cases h
    rfl

theorem distinct_length_eq_zero_iff (arrivals : List (N × F)) :
    (arrivals.map Prod.fst).distinct.length = 0 ↔ arrivals = [] := by
  constructor
  · intro h
    cases arrivals with
    | nil => rfl
    | cons a arrivals =>
      have hmem : a.1 ∈ ((a :: arrivals).map Prod.fst).distinct :=
        List.mem_distinct.mpr List.mem_cons_self
      rw [List.eq_nil_of_length_eq_zero h] at hmem
      cases hmem
  · rintro rfl
    rfl

theorem Holds.getFrame_isError_iff (h : Holds rc arrivals) (hcapacity : rc.capacity ≠ 0) :
    (∃ e, rc.getFrame = .error e) ↔ arrivals = [] := by
  have hpos : 0 < rc.capacity.toNat :=
    Nat.pos_of_ne_zero fun h0 => hcapacity (UInt16.toNat_inj.mp h0)
  have hsize : rc.received.size = 0 ↔ arrivals = [] := by
    rw [h.size, ← distinct_length_eq_zero_iff arrivals]
    omega
  rw [← hsize, getFrame]
  split_ifs with h0 <;> simp [h0]

/-- **A bounded last-value store**: whatever the history, it is one. -/
theorem boundedStore (capacity : UInt16) (hcapacity : capacity ≠ 0) :
    ∃ rc : FrameReceiver N F, create capacity = .ok rc ∧ rc.capacity = capacity ∧
      ∀ ops, BoundedStore rc ops := by
  have hcreate : create capacity = .ok (⟨∅, capacity, Nat.zero_le _⟩ : FrameReceiver N F) :=
    if_neg hcapacity
  refine ⟨_, hcreate, rfl, fun ops => ?_⟩
  have hops := holds_after hcreate ops
  refine ⟨?_, ?_, hops.values, ?_, ?_, ?_⟩
  · have hkeys := hops.keys
    rwa [capacity_after] at hkeys
  · have hsize := hops.size
    rwa [capacity_after] at hsize
  · intro pre node value post heq
    have hpre := holds_after hcreate pre
    refine ⟨?_, fun ⟨e, he⟩ => ?_⟩
    · -- what comes later does not change whether the node is among the first
      have hmem : node ∈ (arrivalsOf pre ++ [(node, value)]).map Prod.fst := by simp
      have hall : arrivalsOf ops = arrivalsOf pre ++ [(node, value)] ++ arrivalsOf post := by
        rw [heq, arrivalsOf_append, List.append_assoc]
        rfl
      rw [hpre.isError_addBack, capacity_after, hall, mem_admitted_append _ hmem]
    · rw [after_concat]
      exact receive_of_error he
  · intro pre node value post _ rc' hok
    have hreceived := received_of_addBack hok
    refine ⟨?_, ?_, fun j hj => ?_⟩
    · rw [after_concat]
      exact receive_of_ok hok
    · rw [hreceived, AList.lookup_insert]
    · rw [hreceived, AList.lookup_insert_ne hj]
  · intro pre post _
    have hpre := holds_after hcreate pre
    refine ⟨?_, ?_, fun frame hframe => ?_⟩
    · rw [after_concat]
      rfl
    · apply hpre.getFrame_isError_iff
      rwa [capacity_after]
    · unfold getFrame at hframe
      split_ifs at hframe
      exact (Except.ok.inj hframe).symm

/-- `boundedStore` for a store with room for two nodes, when a third one arrives. -/
theorem boundedStore_two : ∃ rc : FrameReceiver ℕ ℕ, create 2 = .ok rc ∧ (∀ ops, BoundedStore rc ops) ∧
    let rc' := rc.after [.addBack 1 10, .addBack 2 20, .getFrame, .addBack 1 11, .addBack 3 30]
    rc'.received.lookup 1 = some 11 ∧ rc'.received.lookup 2 = some 20 ∧ rc'.received.lookup 3 = none := by
  obtain ⟨rc, hcreate, -, h⟩ := boundedStore (N := ℕ) (F := ℕ) 2 (by decide)
  refine ⟨rc, hcreate, h, ?_⟩
  cases hcreate
  decide

end FrameReceiver

end TPC.System
