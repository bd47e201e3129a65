import TPC.System.Discovery

/-!
# The frames of a request

`TPC::get_frame_request`: the client's frame, with the channels that have a Hall calibration converted
from millivolts to gauss. A frame has its values under the browse names of their nodes.

* `HallCalibration`, `find`, `millivoltsToGauss`, `getFrameRequest`;
* `Reads`: a received node of the channel table; `Shows`: what a frame has of them;
* `SameFrame`, `Complete`: the order of the maps does not matter, and no reading is lost;
* `Agree`, `DistinctNames`, **`getFrameRequest_shows`**: what a frame shows, and when it is the same in
  every order and complete;
* `not_forall_complete`: two slots with a channel of one name.
-/

namespace TPC.System

open Discovery

/-- `models::HallCalibration`. -/
structure HallCalibration (F : Type) where
  k : F
  v0Mv : F

/-- `models::NamedHallCalibration`. -/
structure NamedHallCalibration (F : Type) where
  name : String
  calibration : HallCalibration F

variable {N F : Type} [Arith F]

namespace HallCalibrationCollection

def kCalibrations : List (NamedHallCalibration F) :=
  [⟨"W1R", ⟨0.569788, -25.37⟩⟩, ⟨"W1F", ⟨0.747579, 10.46⟩⟩, ⟨"W1Z", ⟨0.751044, -3.22⟩⟩]

/-- The first entry of the name. -/
def find (name : String) : Option (HallCalibration F) :=
  (kCalibrations.find? fun entry => entry.name = name).map NamedHallCalibration.calibration

end HallCalibrationCollection

namespace Frame

open HallCalibrationCollection

def millivoltsToGauss (voltageMv : F) (calibration : HallCalibration F) : F :=
  calibration.k * (voltageMv - calibration.v0Mv)

variable [DecidableEq N]

/-- `TPC::get_frame_request`. The received frame is visited in the order `order`, the frame of the
client in the order `names`. -/
def getFrameRequest (c : Client N F) (order : UnorderedMap.Enumeration N F)
    (names : UnorderedMap.Enumeration String F) : Option (UnorderedMap String F) :=
  match c.getFrame order with
  | none => none
  | some frame => some ((names.entries frame).foldl (UnorderedMap.update fun sensorName value =>
      (find sensorName).map (millivoltsToGauss value)) frame)

/-- The value that a channel of this name is given. -/
def calibrate (sensorName : String) (value : F) : F :=
  ((find sensorName).map (millivoltsToGauss value)).getD value

/-- A node that has been received, and is in the channel table under this name. -/
def Reads (c : Client N F) (node : N) (name : String) (value : F) : Prop :=
  c.channelsInfo.nodes.lookup node = some name ∧ c.frameReceiver.received.lookup node = some value

/-- The frame has the names of the received channels, each with the reading of one that has the
name. -/
def Shows (c : Client N F) (frame : UnorderedMap String F) : Prop :=
  ∀ name, (∀ v, frame.lookup name = some v → ∃ node value, Reads c node name value ∧ v = calibrate name value) ∧
    ((∃ node value, Reads c node name value) → name ∈ frame)

/-- A request has the same answer in all orders. -/
def SameFrame (c : Client N F) : Prop :=
  ∀ order names order' names', (getFrameRequest c order names).map (fun frame => frame.lookup) =
    (getFrameRequest c order' names').map fun frame => frame.lookup

/-- A frame has the reading of every received channel, and one entry for each. -/
def Complete (c : Client N F) : Prop :=
  ∀ order names frame, getFrameRequest c order names = some frame →
    (∀ node name value, Reads c node name value → frame.lookup name = some (calibrate name value)) ∧
    frame.keys.Perm (c.frameReceiver.received.keys.filterMap c.channelsInfo.nodes.lookup)

/-- Received channels of one name have one reading. -/
def Agree (c : Client N F) : Prop :=
  ∀ node node' name value value', Reads c node name value → Reads c node' name value' →
    calibrate name value = calibrate name value'

/-- The received channels have different names. -/
def DistinctNames (c : Client N F) : Prop :=
  (c.frameReceiver.received.keys.filterMap c.channelsInfo.nodes.lookup).Nodup

/-- The client after the discovery of some slots, with any content of the receiver. -/
def discovered (slots : List (N × BrowseResult N)) (frameReceiver : FrameReceiver N F) : Client N F :=
  ⟨frameReceiver, slots.foldl (fun result p => appendChannels result p.2) ⟨∅⟩⟩

/-! ## One request -/

variable {c : Client N F} {order order' : UnorderedMap.Enumeration N F}
  {names names' : UnorderedMap.Enumeration String F} {frame frame' : UnorderedMap String F}

theorem getFrameRequest_eq_none : getFrameRequest c order names = none ↔ c.frameReceiver.received.size = 0 := by
  unfold getFrameRequest Client.getFrame FrameReceiver.getFrame
  split_ifs with h <;> simp [h]

/-- **One name**: the last of its nodes has been entered, and calibrated. -/
theorem lookup_getFrameRequest (h : getFrameRequest c order names = some frame) (name : String) :
    frame.lookup name = ((order.entries c.frameReceiver.received).filter fun e =>
      c.channelsInfo.nodes.lookup e.1 = some name).getLast?.map fun e => calibrate name e.2 := by
  unfold getFrameRequest Client.getFrame FrameReceiver.getFrame at h
  split_ifs at h with hs
  cases h
  rw [UnorderedMap.lookup_foldl_update _ name _ _ (names.nodupKeys _), names.dlookup,
    UnorderedMap.lookup_foldl_rename_eq, AList.lookup_empty, Option.or_none]
  cases List.getLast? _ with
  | none => rfl
  | some e =>
    simp only [Option.map_some, Option.bind_some, calibrate]
    cases (find name : Option (HallCalibration F)) <;> rfl

omit [Arith F] in
theorem reads_iff {node : N} {name : String} {value : F} : Reads c node name value ↔
    ⟨node, value⟩ ∈ (order.entries c.frameReceiver.received).filter fun e =>
      c.channelsInfo.nodes.lookup e.1 = some name := by
  rw [List.mem_filter, order.mem_entries, decide_eq_true_iff, Reads, and_comm]

theorem shows_getFrameRequest (h : getFrameRequest c order names = some frame) : Shows c frame := by
  intro name
  constructor
  · intro v hv
    rw [lookup_getFrameRequest h, Option.map_eq_some_iff] at hv
    obtain ⟨⟨node, value⟩, he, rfl⟩ := hv
    exact ⟨node, value, reads_iff.mpr (List.mem_of_getLast? he), rfl⟩
  · rintro ⟨node, value, hr⟩
    rw [← AList.lookup_isSome, lookup_getFrameRequest h, Option.isSome_map, Option.isSome_iff_ne_none, Ne,
      List.getLast?_eq_none_iff]
    exact List.ne_nil_of_mem (reads_iff.mp hr)

theorem exists_lookup_getFrameRequest {node : N} {name : String} {value : F} (hr : Reads c node name value)
    (names : UnorderedMap.Enumeration String F) : ∃ order frame,
      getFrameRequest c order names = some frame ∧ frame.lookup name = some (calibrate name value) := by
  cases hq : getFrameRequest c (UnorderedMap.visitLast F node) names with
  | none =>
    rw [getFrameRequest_eq_none] at hq
    have hnil : c.frameReceiver.received.keys = [] := List.eq_nil_of_length_eq_zero hq
    have hmem : node ∈ c.frameReceiver.received := AList.lookup_isSome.mp (by rw [hr.2]; rfl)
    rw [AList.mem_keys, hnil] at hmem
    cases hmem
  | some frame =>
    refine ⟨_, frame, hq, ?_⟩
    rw [lookup_getFrameRequest hq]
    have hlast : (((UnorderedMap.visitLast F node).entries c.frameReceiver.received).filter fun e =>
        c.channelsInfo.nodes.lookup e.1 = some name).getLast? = some ⟨node, value⟩ := by
      obtain ⟨l, hl⟩ := List.getLast?_eq_some_iff.mp (UnorderedMap.getLast?_visitLast hr.2)
      rw [hl, List.filter_append, List.filter_singleton]
      simp [hr.1]
    rw [hlast]
    rfl

/-! ## All orders -/

theorem Shows.lookup_eq (hagree : Agree c) (h : Shows c frame) (h' : Shows c frame') :
    frame.lookup = frame'.lookup := by
  funext name
  cases hv : frame.lookup name with
  | some v =>
    obtain ⟨node, value, hr, rfl⟩ := (h name).1 v hv
    obtain ⟨v', hv'⟩ := Option.isSome_iff_exists.mp (AList.lookup_isSome.mpr ((h' name).2 ⟨node, value, hr⟩))
    obtain ⟨node', value', hr', rfl⟩ := (h' name).1 v' hv'
    rw [hv', hagree node node' name value value' hr hr']
  | none =>
    by_contra hne
    obtain ⟨v', hv'⟩ := Option.ne_none_iff_exists'.mp (Ne.symm hne)
    obtain ⟨node, value, hr, -⟩ := (h' name).1 v' hv'
    exact AList.lookup_eq_none.mp hv ((h name).2 ⟨node, value, hr⟩)

/-- The answer depends on the order exactly when two readings compete for a name. -/
theorem sameFrame_iff : SameFrame c ↔ Agree c := by
  constructor
  · intro h node node' name value value' hr hr'
    have names : UnorderedMap.Enumeration String F := ⟨AList.entries, fun _ => .refl _⟩
    obtain ⟨order, frame, hframe, hv⟩ := exists_lookup_getFrameRequest hr names
    obtain ⟨order', frame', hframe', hv'⟩ := exists_lookup_getFrameRequest hr' names
    have hsame := h order names order' names
    rw [hframe, hframe', Option.map_some, Option.map_some, Option.some_inj] at hsame
    have hname : frame.lookup name = frame'.lookup name := congrFun hsame name
    exact Option.some_inj.mp (hv.symm.trans (hname.trans hv'))
  · intro h order names order' names'
    cases hq : getFrameRequest c order names with
    | none => rw [getFrameRequest_eq_none.mpr (getFrameRequest_eq_none.mp hq)]
    | some frame =>
      cases hq' : getFrameRequest c order' names' with
      | none =>
        rw [getFrameRequest_eq_none.mpr (getFrameRequest_eq_none.mp hq')] at hq
        cases hq
      | some frame' =>
        rw [Option.map_some, Option.map_some, Option.some_inj]
        exact (shows_getFrameRequest hq).lookup_eq h (shows_getFrameRequest hq')

omit [Arith F] in
theorem mem_names {name : String} :
    name ∈ c.frameReceiver.received.keys.filterMap c.channelsInfo.nodes.lookup ↔
      ∃ node value, Reads c node name value := by
  rw [List.mem_filterMap]
  constructor
  · rintro ⟨node, hnode, hname⟩
    obtain ⟨value, hvalue⟩ := Option.isSome_iff_exists.mp (AList.lookup_isSome.mpr (AList.mem_keys.mpr hnode))
    exact ⟨node, value, hname, hvalue⟩
  · rintro ⟨node, value, hname, hvalue⟩
    exact ⟨node, AList.mem_keys.mp (AList.lookup_isSome.mp (by rw [hvalue]; rfl)), hname⟩

omit [Arith F] in
theorem DistinctNames.eq_of_reads (h : DistinctNames c) {node node' : N} {name : String} {value value' : F}
    (hr : Reads c node name value) (hr' : Reads c node' name value') : node = node' := by
  have hkeys : ∀ {n : N} {v : F}, Reads c n name v → n ∈ c.frameReceiver.received.keys := fun hn =>
    AList.mem_keys.mp (AList.lookup_isSome.mp (by rw [hn.2]; rfl))
  by_contra hne
  have hpair := List.pairwise_filterMap.mp h
  have hsymm : Std.Symm fun a b => ∀ n, c.channelsInfo.nodes.lookup a = some n →
      ∀ n', c.channelsInfo.nodes.lookup b = some n' → n ≠ n' :=
    ⟨fun a b hab n hn n' hn' => (hab n' hn' n hn).symm⟩
  exact hpair.forall (hkeys hr) (hkeys hr') hne name hr.1 name hr'.1 rfl

/-- A frame is complete exactly when no two readings compete for a name. -/
theorem complete_iff : Complete c ↔ DistinctNames c := by
  constructor
  · intro h
    let order : UnorderedMap.Enumeration N F := ⟨AList.entries, fun _ => .refl _⟩
    let names : UnorderedMap.Enumeration String F := ⟨AList.entries, fun _ => .refl _⟩
    cases hq : getFrameRequest c order names with
    | none =>
      rw [getFrameRequest_eq_none] at hq
      rw [DistinctNames, List.eq_nil_of_length_eq_zero hq]
      exact List.nodup_nil
    | some frame => exact (h order names frame hq).2.nodup_iff.mp frame.keys_nodup
  · intro h order names frame hq
    have hshows := shows_getFrameRequest hq
    refine ⟨fun node name value hr => ?_, (List.perm_ext_iff_of_nodup frame.keys_nodup h).mpr fun name => ?_⟩
    · obtain ⟨v, hv⟩ := Option.isSome_iff_exists.mp
        (AList.lookup_isSome.mpr ((hshows name).2 ⟨node, value, hr⟩))
      obtain ⟨node', value', hr', rfl⟩ := (hshows name).1 v hv
      obtain rfl := h.eq_of_reads hr hr'
      rw [hv, Option.some_inj.mp (hr.2.symm.trans hr'.2)]
    · rw [← AList.mem_keys, mem_names]
      refine ⟨fun hname => ?_, (hshows name).2⟩
      obtain ⟨v, hv⟩ := Option.isSome_iff_exists.mp (AList.lookup_isSome.mpr hname)
      obtain ⟨node, value, hr, -⟩ := (hshows name).1 v hv
      exact ⟨node, value, hr⟩

/-- **What a request answers**, whatever slots have been discovered, whatever has been received and in
whatever order the maps are visited: nothing while nothing has been received, and otherwise a frame with
the names of the received channels, each with the calibrated value of one that has the name. It is the
same in all orders exactly when channels of one name have one reading, and it has every reading, one entry
for each, exactly when the names are different. -/
theorem getFrameRequest_shows (slots : List (N × BrowseResult N)) (frameReceiver : FrameReceiver N F) :
    (∀ order names, getFrameRequest (discovered slots frameReceiver) order names = none ↔
      frameReceiver.received.size = 0) ∧
    (∀ order names frame, getFrameRequest (discovered slots frameReceiver) order names = some frame →
      Shows (discovered slots frameReceiver) frame) ∧
    (SameFrame (discovered slots frameReceiver) ↔ Agree (discovered slots frameReceiver)) ∧
    (Complete (discovered slots frameReceiver) ↔ DistinctNames (discovered slots frameReceiver)) :=
  ⟨fun _ _ => getFrameRequest_eq_none, fun _ _ _ => shows_getFrameRequest, sameFrame_iff, complete_iff⟩

/-! ## Two slots with a channel of one name -/

/-- A slot with one channel. -/
def slot (node : ℕ) (name : String) : BrowseResult ℕ :=
  ⟨0, [⟨true, .Variable, true, node, name⟩], fun h => absurd h (by decide)⟩

/-- Both channels have been received. -/
noncomputable def bothReceived : FrameReceiver ℕ ℝ :=
  ⟨⟨[⟨1, 1⟩, ⟨2, 2⟩], by simp [List.NodupKeys, List.keys]⟩, 36, Nat.le_of_ble_eq_true rfl⟩

/-- The frame has the reading of the one or of the other. -/
theorem not_forall_complete : ¬ ∀ (slots : List (ℕ × BrowseResult ℕ)) (frameReceiver : FrameReceiver ℕ ℝ),
    SameFrame (discovered slots frameReceiver) ∧ Complete (discovered slots frameReceiver) := by
  intro h
  have hagree : Agree (discovered [(10, slot 1 "Hall 1"), (20, slot 2 "Hall 1")] bothReceived) :=
    sameFrame_iff.mp (h _ _).1
  have hvalue : ∀ value : ℝ, calibrate "Hall 1" value = value := fun value => by
    simp [calibrate, find, kCalibrations]
  have hne : (1 : ℝ) = 2 := by
    have heq := hagree 1 2 "Hall 1" 1 2 ⟨rfl, rfl⟩ ⟨rfl, rfl⟩
    rwa [hvalue, hvalue] at heq
  norm_num at hne

end Frame

end TPC.System
