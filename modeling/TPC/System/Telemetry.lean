import TPC.System.Frame

/-!
# The frames of several threads

`TPC::get_frame_request` under the polling worker and the threads of the user, while samples arrive and
discoveries install their tables. It copies the received values under one mutex and looks their names up
under another, so that the client changes between the two.

* `Answer`, `State`, **`Step`**: the requests, lock by lock, and what they have answered;
* `clientAt`, `seen`: the client at a moment; the values of one moment under the names of another;
* `Inv`, `Inv.step`: which moments a request has seen;
* **`getFrameRequest_answers`**: what the frames show, when they are those of one moment, and that they do not go back;
* `not_forall_atomic`: a frame that the client has at no moment.
-/

namespace TPC.System.Telemetry

open TPC.System.Frame FrameReceiver Client

variable {N F ι : Type} [DecidableEq N] [Arith F]

/-- Where a call of `get_frame_request` stands. The numbers are moments: how many samples and tables had
come. -/
inductive Call (N F : Type)
  | idle
  /-- Before it has the mutex of the receiver. -/
  | begun (begin : ℕ)
  /-- Before it has the mutex of the channel table. -/
  | copied (begin copy : ℕ) (receivedFrame : UnorderedMap N F)

/-- What a call has answered, and when it began, had the first mutex and had the second. -/
structure Answer (F ι : Type) where
  thread : ι
  begin : ℕ
  copy : ℕ
  join : ℕ
  frame : Option (UnorderedMap String F)

/-- The client, the samples and discoveries, and the requests. -/
structure State (N F ι : Type) where
  client : Client N F
  events : List (Event N F)
  call : ι → Call N F
  answers : List (Answer F ι)

/-- Before the first request. -/
def State.init (c : Client N F) : State N F ι := ⟨c, [], fun _ => .idle, []⟩

section

variable [DecidableEq ι]

def State.setCall (s : State N F ι) (t : ι) (c : Call N F) : State N F ι :=
  { s with call := Function.update s.call t c }

/-- The call of the thread returns. -/
def State.return (s : State N F ι) (a : Answer F ι) : State N F ι :=
  { s.setCall a.thread .idle with answers := s.answers ++ [a] }

/-- The received values under the names of a channel table, and calibrated. -/
def display (table : DiscoveryResult N) (order : UnorderedMap.Enumeration N F)
    (names : UnorderedMap.Enumeration String F) (receivedFrame : UnorderedMap N F) : UnorderedMap String F :=
  let frame := (order.entries receivedFrame).foldl
    (UnorderedMap.rename fun nodeId => table.nodes.lookup nodeId) ∅
  (names.entries frame).foldl (UnorderedMap.update fun sensorName value =>
    (HallCalibrationCollection.find sensorName).map (millivoltsToGauss value)) frame

/-- One step of some thread. -/
inductive Step (s : State N F ι) : State N F ι → Prop
  /-- A sample, or the table of a discovery. -/
  | event (e : Event N F) : Step s { s with client := s.client.handle e, events := s.events ++ [e] }
  | begins (t : ι) (h : s.call t = .idle) : Step s (s.setCall t (.begun s.events.length))
  /-- Nothing has been received. -/
  | empty (t : ι) (b : ℕ) (e : String) (h : s.call t = .begun b) (hr : s.client.frameReceiver.getFrame = .error e) :
    Step s (s.return ⟨t, b, s.events.length, s.events.length, none⟩)
  | copies (t : ι) (b : ℕ) (receivedFrame : UnorderedMap N F) (h : s.call t = .begun b)
    (hr : s.client.frameReceiver.getFrame = .ok receivedFrame) :
    Step s (s.setCall t (.copied b s.events.length receivedFrame))
  | joins (t : ι) (b k : ℕ) (receivedFrame : UnorderedMap N F) (order : UnorderedMap.Enumeration N F)
    (names : UnorderedMap.Enumeration String F) (h : s.call t = .copied b k receivedFrame) :
    Step s (s.return ⟨t, b, k, s.events.length,
      some (display s.client.channelsInfo order names receivedFrame)⟩)

/-- The states that a run reaches from `s`. -/
abbrev Reaches : State N F ι → State N F ι → Prop := Relation.ReflTransGen Step

end

/-- The client after the first `n` events. -/
def clientAt (c : Client N F) (events : List (Event N F)) (n : ℕ) : Client N F := c.handleAll (events.take n)

/-- The values of the moment `k` under the names of the moment `j`. -/
def seen (c : Client N F) (events : List (Event N F)) (k j : ℕ) : Client N F :=
  ⟨(clientAt c events k).frameReceiver, (clientAt c events j).channelsInfo⟩

variable {c : Client N F} {events : List (Event N F)} {e : Event N F} {b k j n : ℕ}

/-! ## Moments -/

theorem handleAll_concat (c : Client N F) (events : List (Event N F)) (e : Event N F) :
    c.handleAll (events ++ [e]) = (c.handleAll events).handle e := List.foldl_concat _ _ _ _

theorem clientAt_concat (hn : n ≤ events.length) : clientAt c (events ++ [e]) n = clientAt c events n := by
  rw [clientAt, List.take_append_of_le_length hn, clientAt]

theorem clientAt_length : clientAt c events events.length = c.handleAll events := by
  rw [clientAt, List.take_length]

theorem seen_concat (hk : k ≤ events.length) (hj : j ≤ events.length) :
    seen c (events ++ [e]) k j = seen c events k j := by
  rw [seen, clientAt_concat hk, clientAt_concat hj, seen]

theorem clientAt_eq (hkj : k ≤ j) :
    clientAt c events j = (clientAt c events k).handleAll ((events.take j).drop k) := by
  have hsplit : events.take j = events.take k ++ (events.take j).drop k := by
    conv_lhs => rw [← List.take_append_drop k (events.take j), List.take_take, min_eq_left hkj]
  rw [clientAt, clientAt, handleAll, hsplit, List.foldl_append, ← hsplit]
  rfl

theorem frameReceiver_handleAll (c : Client N F) (events : List (Event N F)) :
    (c.handleAll events).frameReceiver = c.frameReceiver.receiveAll (arrivals events) := by
  induction events using List.reverseRecOn with
  | nil => rfl
  | append_singleton events e ih =>
    rw [handleAll_concat, arrivals_concat, receiveAll, List.foldl_append, ← receiveAll, ← receiveAll, ← ih]
    cases e with
    | discovered discovery => rfl
    | sampled node values => rw [handle_sampled]

theorem frameReceiver_eq (h : ∀ node values, Event.sampled node values ∉ events) :
    (c.handleAll events).frameReceiver = c.frameReceiver := by
  have harrivals : arrivals events = [] := by
    refine List.filterMap_eq_nil_iff.mpr fun e he => ?_
    cases e with
    | discovered discovery => rfl
    | sampled node values => exact absurd he (h node values)
  rw [frameReceiver_handleAll, harrivals]
  rfl

theorem channelsInfo_eq (h : ∀ discovery, Event.discovered discovery ∉ events) :
    (c.handleAll events).channelsInfo = c.channelsInfo := by
  induction events using List.reverseRecOn with
  | nil => rfl
  | append_singleton events e ih =>
    rw [handleAll_concat]
    cases e with
    | discovered discovery => exact absurd (by simp) (h discovery)
    | sampled node values =>
      rw [handle_sampled]
      exact ih fun discovery he => h discovery (List.mem_append_left _ he)

/-- Without a discovery between two moments, or without a sample, what has been seen at both is the client
at one of them. -/
theorem exists_seen_eq (hkj : k ≤ j)
    (h : (∀ discovery, Event.discovered discovery ∉ (events.take j).drop k) ∨
      ∀ node values, Event.sampled node values ∉ (events.take j).drop k) :
    ∃ n, k ≤ n ∧ n ≤ j ∧ seen c events k j = clientAt c events n := by
  rcases h with h | h
  · refine ⟨k, le_rfl, hkj, ?_⟩
    rw [seen, clientAt_eq hkj, channelsInfo_eq h]
  · refine ⟨j, hkj, le_rfl, ?_⟩
    rw [seen, ← frameReceiver_eq h (c := clientAt c events k), ← clientAt_eq hkj]

theorem getFrameRequest_of_error {e : String} (h : c.frameReceiver.getFrame = .error e)
    (order : UnorderedMap.Enumeration N F) (names : UnorderedMap.Enumeration String F) :
    getFrameRequest c order names = none := by
  rw [getFrameRequest, Client.getFrame, h]

theorem getFrameRequest_of_ok {receivedFrame : UnorderedMap N F}
    (h : c.frameReceiver.getFrame = .ok receivedFrame) (order : UnorderedMap.Enumeration N F)
    (names : UnorderedMap.Enumeration String F) :
    getFrameRequest c order names = some (display c.channelsInfo order names receivedFrame) := by
  rw [getFrameRequest, Client.getFrame, h]
  rfl

/-! ## Runs -/

variable {s s' : State N F ι} {a : Answer F ι} {t : ι}

/-- The answer is that of the client as it has been seen at two moments of the call. -/
structure AnswerOk (c : Client N F) (events : List (Event N F)) (a : Answer F ι) : Prop where
  begin_le : a.begin ≤ a.copy
  copy_le : a.copy ≤ a.join
  join_le : a.join ≤ events.length
  frame : ∃ order names, a.frame = getFrameRequest (seen c events a.copy a.join) order names

/-- A call has begun after the answers that its thread has had. -/
def CallOk (c : Client N F) (s : State N F ι) (t : ι) : Call N F → Prop
  | .idle => True
  | .begun b => b ≤ s.events.length ∧ ∀ a ∈ s.answers, a.thread = t → a.join ≤ b
  | .copied b k receivedFrame => b ≤ k ∧ k ≤ s.events.length ∧
    (clientAt c s.events k).frameReceiver.getFrame = .ok receivedFrame ∧
      ∀ a ∈ s.answers, a.thread = t → a.join ≤ b

/-- What every step keeps. -/
structure Inv (c : Client N F) (s : State N F ι) : Prop where
  client : s.client = c.handleAll s.events
  calls : ∀ t, CallOk c s t (s.call t)
  answers : ∀ a ∈ s.answers, AnswerOk c s.events a
  ordered : s.answers.Pairwise fun a a' => a.thread = a'.thread → a.join ≤ a'.begin

theorem inv_init (c : Client N F) : Inv c (.init c : State N F ι) :=
  ⟨rfl, fun _ => trivial, by simp [State.init], List.Pairwise.nil⟩

theorem AnswerOk.concat (h : AnswerOk c events a) (e : Event N F) : AnswerOk c (events ++ [e]) a where
  begin_le := h.begin_le
  copy_le := h.copy_le
  join_le := h.join_le.trans (by simp)
  frame := by
    rw [seen_concat (h.copy_le.trans h.join_le) h.join_le]
    exact h.frame

theorem Inv.event (h : Inv c s) (e : Event N F) :
    Inv c { s with client := s.client.handle e, events := s.events ++ [e] } where
  client := by rw [handleAll_concat, h.client]
  calls t := by
    have hcall := h.calls t
    cases hc : s.call t with
    | idle => trivial
    | begun b =>
      simp only [CallOk, hc] at hcall ⊢
      exact ⟨hcall.1.trans (by simp), hcall.2⟩
    | copied b k receivedFrame =>
      simp only [CallOk, hc] at hcall ⊢
      rw [clientAt_concat hcall.2.1]
      exact ⟨hcall.1, hcall.2.1.trans (by simp), hcall.2.2⟩
  answers a ha := (h.answers a ha).concat e
  ordered := h.ordered

section

variable [DecidableEq ι]

theorem Inv.setCall (h : Inv c s) {call : Call N F} (hc : CallOk c s t call) : Inv c (s.setCall t call) where
  client := h.client
  calls t' := by
    by_cases ht : t' = t
    · subst ht
      simp only [State.setCall, Function.update_self]
      exact hc
    · simp only [State.setCall, Function.update_of_ne ht]
      exact h.calls t'
  answers := h.answers
  ordered := h.ordered

theorem Inv.return (h : Inv c s) (ha : AnswerOk c s.events a)
    (hb : ∀ a' ∈ s.answers, a'.thread = a.thread → a'.join ≤ a.begin) : Inv c (s.return a) where
  client := h.client
  calls t' := by
    by_cases ht : t' = a.thread
    · subst ht
      simp only [State.return, State.setCall, Function.update_self, CallOk]
    · have hcall := h.calls t'
      simp only [State.return, State.setCall, Function.update_of_ne ht]
      have hnew : ∀ b, (∀ a' ∈ s.answers, a'.thread = t' → a'.join ≤ b) →
          ∀ a' ∈ s.answers ++ [a], a'.thread = t' → a'.join ≤ b := by
        intro b hold a' ha' ht'
        rcases List.mem_append.mp ha' with ha' | ha'
        · exact hold a' ha' ht'
        · rw [List.mem_singleton.mp ha'] at ht'
          exact absurd ht'.symm ht
      cases hc : s.call t' with
      | idle => trivial
      | begun b =>
        simp only [CallOk, hc] at hcall ⊢
        exact ⟨hcall.1, hnew b hcall.2⟩
      | copied b k receivedFrame =>
        simp only [CallOk, hc] at hcall ⊢
        exact ⟨hcall.1, hcall.2.1, hcall.2.2.1, hnew b hcall.2.2.2⟩
  answers a' ha' := by
    rcases List.mem_append.mp ha' with ha' | ha'
    · exact h.answers a' ha'
    · rw [List.mem_singleton.mp ha']
      exact ha
  ordered := by
    refine List.pairwise_append.mpr ⟨h.ordered, List.pairwise_singleton _ _, fun a' ha' a'' ha'' => ?_⟩
    rw [List.mem_singleton.mp ha'']
    exact hb a' ha'

theorem Inv.step (h : Inv c s) (hs : Step s s') : Inv c s' := by
  have hnow : clientAt c s.events s.events.length = s.client := by rw [clientAt_length, h.client]
  cases hs with
  | event e => exact h.event e
  | begins t ht => exact h.setCall ⟨le_rfl, fun a ha _ => (h.answers a ha).join_le⟩
  | empty t b e ht hr =>
    have hcall := h.calls t
    rw [ht] at hcall
    refine h.return ⟨hcall.1, le_rfl, le_rfl, ?_⟩ hcall.2
    have order : UnorderedMap.Enumeration N F := ⟨AList.entries, fun _ => .refl _⟩
    have names : UnorderedMap.Enumeration String F := ⟨AList.entries, fun _ => .refl _⟩
    refine ⟨order, names, (getFrameRequest_of_error (e := e) ?_ order names).symm⟩
    show (clientAt c s.events s.events.length).frameReceiver.getFrame = _
    rw [hnow, hr]
  | copies t b receivedFrame ht hr =>
    have hcall := h.calls t
    rw [ht] at hcall
    refine h.setCall ⟨hcall.1, le_rfl, ?_, hcall.2⟩
    rw [hnow, hr]
  | joins t b k receivedFrame order names ht =>
    have hcall := h.calls t
    rw [ht] at hcall
    refine h.return ⟨hcall.1, hcall.2.1, le_rfl, order, names, ?_⟩ hcall.2.2.2
    have hframe := getFrameRequest_of_ok (c := seen c s.events k s.events.length) hcall.2.2.1 order names
    rw [← hnow]
    exact hframe.symm

theorem inv_reaches (h : Reaches (.init c) s) : Inv c s := by
  induction h with
  | refl => exact inv_init c
  | tail _ hs ih => exact ih.step hs

end

/-! ## Answers -/

/-- What the requests of a run answer. -/
structure Answers (c : Client N F) (s : State N F ι) : Prop where
  /-- They look at the receiver and then at the table, during the call. -/
  moments : ∀ a ∈ s.answers, a.begin ≤ a.copy ∧ a.copy ≤ a.join ∧ a.join ≤ s.events.length
  /-- There is no frame exactly when no sample had come, -/
  empty : ∀ a ∈ s.answers, a.frame = none ↔ arrivals (s.events.take a.copy) = []
  /-- and otherwise it has the received values, calibrated, under the names that their nodes have in the
  table, -/
  shows : ∀ a ∈ s.answers, ∀ frame, a.frame = some frame → Shows (seen c s.events a.copy a.join) frame
  /-- which are the last ones of the first 36 nodes. -/
  latest : ∀ a ∈ s.answers, ∀ node,
    (seen c s.events a.copy a.join).frameReceiver.received.lookup node =
      if node ∈ admittedNodes (s.events.take a.copy) then lastValue (arrivals (s.events.take a.copy)) node
      else none
  named : ∀ a ∈ s.answers, ∀ frame, a.frame = some frame → ∀ name ∈ frame, ∀ order,
    name ∈ (clientAt c s.events a.join).getSensorsNames order
  /-- Unless both a sample and a discovery come between, the client would have answered the same at once, at
  a moment of the call. -/
  atomic : ∀ a ∈ s.answers, (∀ discovery, .discovered discovery ∉ (s.events.take a.join).drop a.copy) ∨
      (∀ node values, .sampled node values ∉ (s.events.take a.join).drop a.copy) →
    ∃ n, a.begin ≤ n ∧ n ≤ a.join ∧ ∃ order names, a.frame = getFrameRequest (clientAt c s.events n) order names
  /-- The answers of a thread do not go back. -/
  ordered : s.answers.Pairwise fun a a' => a.thread = a'.thread → a.join ≤ a'.begin

omit [DecidableEq N] [Arith F] in
theorem create_eq (h : Client.create = .ok c) :
    ∃ rc, FrameReceiver.create 36 = .ok rc ∧ c = ⟨rc, ⟨∅⟩⟩ := by
  obtain ⟨rc, hrc, hc⟩ := Fold.bind_eq_ok.mp h
  cases hc
  exact ⟨rc, hrc, rfl⟩

theorem holds_clientAt (h : Client.create = .ok c) (events : List (Event N F)) (n : ℕ) :
    Holds (clientAt c events n).frameReceiver (arrivals (events.take n)) ∧
      (clientAt c events n).frameReceiver.capacity = 36 := by
  obtain ⟨rc, hrc, rfl⟩ := create_eq h
  rw [clientAt, frameReceiver_handleAll]
  refine ⟨holds_receiveAll hrc _, ?_⟩
  rw [capacity_receiveAll]
  unfold FrameReceiver.create at hrc
  split_ifs at hrc
  cases hrc
  rfl

variable {rc : FrameReceiver N F} {arrived : List (N × F)}

omit [Arith F] in
theorem size_eq_zero_iff (h : Holds rc arrived) (hc : rc.capacity = 36) :
    rc.received.size = 0 ↔ arrived = [] := by
  rw [← h.getFrame_isError_iff (by rw [hc]; decide), FrameReceiver.getFrame]
  split_ifs with hs <;> simp [hs]

theorem getFrame_clientAt (hc : Client.create = .ok c) (h : arrivals (events.take n) ≠ []) :
    (clientAt c events n).frameReceiver.getFrame = .ok (clientAt c events n).frameReceiver.received := by
  obtain ⟨hholds, hcapacity⟩ := holds_clientAt hc events n
  rw [FrameReceiver.getFrame, if_neg]
  rw [size_eq_zero_iff hholds hcapacity]
  exact h

theorem Inv.answers_of (h : Inv c s) (hc : Client.create = .ok c) : Answers c s where
  moments a ha := ⟨(h.answers a ha).begin_le, (h.answers a ha).copy_le, (h.answers a ha).join_le⟩
  empty a ha := by
    obtain ⟨order, names, hframe⟩ := (h.answers a ha).frame
    obtain ⟨hholds, hcapacity⟩ := holds_clientAt hc s.events a.copy
    rw [hframe, getFrameRequest_eq_none]
    exact size_eq_zero_iff hholds hcapacity
  shows a ha frame hf := by
    obtain ⟨order, names, hframe⟩ := (h.answers a ha).frame
    exact shows_getFrameRequest (hframe.symm.trans hf)
  latest a ha node := by
    obtain ⟨hholds, hcapacity⟩ := holds_clientAt hc s.events a.copy
    have hmem : node ∈ (clientAt c s.events a.copy).frameReceiver.received ↔ _ := hholds.mem
    rw [hcapacity] at hmem
    split_ifs with hn
    · exact hholds.values node (hmem.mpr hn)
    · exact AList.lookup_eq_none.mpr (mt hmem.mp hn)
  named a ha frame hf name hname order := by
    obtain ⟨order', names, hframe⟩ := (h.answers a ha).frame
    obtain ⟨v, hv⟩ := Option.isSome_iff_exists.mp (AList.lookup_isSome.mpr hname)
    obtain ⟨node, value, hr, -⟩ := (shows_getFrameRequest (hframe.symm.trans hf) name).1 v hv
    exact List.mem_map.mpr ⟨⟨node, name⟩, order.mem_entries.mpr hr.1, rfl⟩
  atomic a ha hbetween := by
    obtain ⟨hbegin, hcopy, -, order, names, hframe⟩ := h.answers a ha
    obtain ⟨n, hkn, hnj, hseen⟩ := exists_seen_eq (c := c) hcopy hbetween
    exact ⟨n, hbegin.trans hkn, hnj, order, names, hframe.trans (by rw [hseen])⟩
  ordered := h.ordered

/-- **The frames**, in any interleaving of requests, samples and discoveries: the last values of the moment
at which a request had the receiver, calibrated, under the names of the moment at which it had the table. -/
theorem getFrameRequest_answers [DecidableEq ι] (hc : Client.create = .ok c) (hs : Reaches (.init c) s) : Answers c s :=
  (inv_reaches hs).answers_of hc

/-! ## A sample and a discovery between the two -/

/-- Two samples of one node, and then a table with its name. -/
noncomputable def tornEvents : List (Event ℕ ℝ) :=
  [.sampled 1 [1], .sampled 1 [2], .discovered ⟨AList.singleton 1 "W2R"⟩]

theorem lookup_tornEvents {n : ℕ} {value : ℝ} (hn : 1 ∈ admittedNodes (tornEvents.take n))
    (hv : lastValue (arrivals (tornEvents.take n)) 1 = some value) :
    (clientAt created tornEvents n).frameReceiver.received.lookup 1 = some value := by
  obtain ⟨hholds, hcapacity⟩ := holds_clientAt (c := created) rfl tornEvents n
  rw [hholds.values 1 (hholds.mem.mpr (by rw [hcapacity]; exact hn)), hv]

/-- A request that copies the first value, and looks for names after the discovery. -/
theorem exists_torn : ∃ s : State ℕ ℝ Unit, Reaches (.init created) s ∧ s.events = tornEvents ∧
    ∃ a ∈ s.answers, a.begin = 1 ∧ a.copy = 1 ∧ a.join = 3 ∧ a.frame ≠ none := by
  have order : UnorderedMap.Enumeration ℕ ℝ := ⟨AList.entries, fun _ => .refl _⟩
  have names : UnorderedMap.Enumeration String ℝ := ⟨AList.entries, fun _ => .refl _⟩
  have h₁ : Reaches (.init created : State ℕ ℝ Unit) _ := .single (.event (.sampled 1 [1]))
  have h₂ := h₁.tail (.begins () rfl)
  have hreceived := getFrame_clientAt rfl (c := created) (n := 1) (show arrivals (tornEvents.take 1) ≠ [] from nofun)
  have h₃ := h₂.tail (.copies () 1 (clientAt created tornEvents 1).frameReceiver.received rfl hreceived)
  have h₄ := (h₃.tail (.event (.sampled 1 [2]))).tail (.event (.discovered ⟨AList.singleton 1 "W2R"⟩))
  have h₅ := h₄.tail (.joins () 1 1 _ order names rfl)
  exact ⟨_, h₅, rfl, _, List.mem_singleton_self _, rfl, rfl, rfl, nofun⟩

theorem eq_of_shows {s : Client ℕ ℝ} {frame : UnorderedMap String ℝ} {value v : ℝ} (h : Shows s frame)
    (htable : s.channelsInfo.nodes = AList.singleton 1 "W2R")
    (hr : s.frameReceiver.received.lookup 1 = some value) (hv : frame.lookup "W2R" = some v) : v = value := by
  obtain ⟨node, value', ⟨hnode, hvalue⟩, he⟩ := (h "W2R").1 v hv
  have hone : node = 1 := by
    rw [htable, ← Option.mem_def, AList.mem_lookup_iff] at hnode
    exact congrArg Sigma.fst (List.mem_singleton.mp hnode)
  rw [hone, hr, Option.some_inj] at hvalue
  rw [he, hvalue]
  simp [calibrate, HallCalibrationCollection.find, HallCalibrationCollection.kCalibrations]

/-- The client has the name with the second value only. -/
theorem not_forall_atomic : ¬ ∀ s : State ℕ ℝ Unit, Reaches (.init created) s → ∀ a ∈ s.answers,
    ∃ n, a.begin ≤ n ∧ n ≤ a.join ∧ ∃ order names,
      a.frame = getFrameRequest (clientAt created s.events n) order names := by
  intro h
  obtain ⟨s, hs, hevents, a, ha, hbegin, hcopy, hjoin, hframe⟩ := exists_torn
  obtain ⟨frame, hsome⟩ := Option.ne_none_iff_exists'.mp hframe
  have hfirst : (clientAt created tornEvents 1).frameReceiver.received.lookup 1 = some (average [1]) :=
    lookup_tornEvents (by decide) rfl
  have hthird : (clientAt created tornEvents 3).frameReceiver.received.lookup 1 = some (average [2]) :=
    lookup_tornEvents (by decide) rfl
  -- the frame has the first value under the name
  obtain ⟨order, names, hseen⟩ := ((inv_reaches hs).answers a ha).frame
  rw [hsome, hevents, hcopy, hjoin] at hseen
  have hshows := shows_getFrameRequest hseen.symm
  obtain ⟨v, hv⟩ := Option.isSome_iff_exists.mp
    (AList.lookup_isSome.mpr ((hshows "W2R").2 ⟨1, average [1], rfl, hfirst⟩))
  have hone := eq_of_shows hshows rfl hfirst hv
  -- and the client has not
  obtain ⟨n, hn, hn', order', names', hatomic⟩ := h s hs a ha
  rw [hsome, hevents] at hatomic
  rw [hbegin] at hn
  rw [hjoin] at hn'
  have hshown := shows_getFrameRequest hatomic.symm
  interval_cases n
  · obtain ⟨node, value, hr, -⟩ := (hshown "W2R").1 v hv
    exact absurd hr.1 nofun
  · obtain ⟨node, value, hr, -⟩ := (hshown "W2R").1 v hv
    exact absurd hr.1 nofun
  · have htwo := eq_of_shows hshown rfl hthird hv
    rw [hone] at htwo
    norm_num [average] at htwo

/-- `getFrameRequest_answers` for that request. -/
theorem getFrameRequest_answers_torn : ∃ s : State ℕ ℝ Unit, Client.create = .ok (created : Client ℕ ℝ) ∧
    Reaches (.init created) s ∧ s.answers ≠ [] ∧ Answers created s := by
  obtain ⟨s, hs, -, a, ha, -⟩ := exists_torn
  exact ⟨s, rfl, hs, List.ne_nil_of_mem ha, getFrameRequest_answers rfl hs⟩

end TPC.System.Telemetry
