import TPC.System.EventHandler

/-!
# The deliveries of an event handler

`event_handler` under several threads. `invoke` copies the handlers under the mutex and calls the copies
without it, so that other calls of `invoke`, `subscribe` and `unsubscribe` come between, some of them from
the handlers themselves.

* `State`, **`Step`**: the operations take the mutex one after another, and the events are in flight;
* `Registered`, **`lookup_after_iff`**: the table holds what has been subscribed and not removed;
* `Snapshot`, `Inv`, `Inv.step`: an event calls the handlers of its copy, each at most once;
* **`delivers`**: which handlers the events call, and what unsubscribing ensures.
-/

namespace TPC.System.Deliveries

open EventHandler

variable {H A : Type}

/-- A call of a handler that has begun. -/
structure Call (H A : Type) where
  /-- The place of the event among the operations. -/
  event : ℕ
  id : UInt64
  handler : H
  args : A
  deriving DecidableEq

/-- A call of `invoke` that has copied the handlers. -/
structure Invocation (H A : Type) where
  event : ℕ
  args : A
  /-- The copies that it has not called yet, with the ids they had in the table. -/
  waiting : List (Σ _ : UInt64, H)

/-- An event handler, the operations that have had the mutex, the events in flight, and what has
happened. -/
structure State (H A : Type) where
  table : EventHandler H
  ops : List (Op H)
  inFlight : List (Invocation H A)
  calls : List (Call H A)
  /-- The events whose `invoke` has returned. -/
  finished : List ℕ
  begun : List (ℕ × A)

def State.init : State H A := ⟨.init, [], [], [], [], []⟩

/-- An operation with the mutex. -/
def State.operate (s : State H A) (op : Op H) : State H A :=
  { s with table := (s.table.step op).1, ops := s.ops ++ [op] }

/-- `invoke` up to the end of its lock. -/
def State.invoke (s : State H A) (order : UnorderedMap.Enumeration UInt64 H) (args : A) : State H A :=
  { s.operate (.invoke order) with
    inFlight := ⟨s.ops.length, args, order.entries s.table.handlers⟩ :: s.inFlight
    begun := (s.ops.length, args) :: s.begun }

/-- One step of some thread. -/
inductive Step (s : State H A) : State H A → Prop
  | operate (op : Op H) (h : ∀ order, op ≠ .invoke order) : Step s (s.operate op)
  | invoke (order : UnorderedMap.Enumeration UInt64 H) (args : A) : Step s (s.invoke order args)
  /-- The call of the next copy begins. -/
  | call (l₁ l₂ : List (Invocation H A)) (i : Invocation H A) (e : Σ _ : UInt64, H)
    (rest : List (Σ _ : UInt64, H)) (hs : s.inFlight = l₁ ++ i :: l₂) (hw : i.waiting = e :: rest) :
    Step s { s with inFlight := l₁ ++ { i with waiting := rest } :: l₂
                    calls := s.calls ++ [⟨i.event, e.1, e.2, i.args⟩] }
  /-- A handler throws, and `invoke` with it. -/
  | throw (l₁ l₂ : List (Invocation H A)) (i : Invocation H A) (hs : s.inFlight = l₁ ++ i :: l₂) :
    Step s { s with inFlight := l₁ ++ l₂ }
  /-- `invoke` returns. -/
  | finish (l₁ l₂ : List (Invocation H A)) (i : Invocation H A) (hs : s.inFlight = l₁ ++ i :: l₂)
    (hw : i.waiting = []) :
    Step s { s with inFlight := l₁ ++ l₂, finished := i.event :: s.finished }

/-- The states that a run reaches from `s`. -/
abbrev Reaches : State H A → State H A → Prop := Relation.ReflTransGen Step

variable {s s' : State H A} {ops : List (Op H)} {p : ℕ} {id : UInt64} {h : H}

/-! ## The table -/

/-- Of the first `p` operations one has subscribed `h`, with this id, and none has removed it since. -/
def Registered (ops : List (Op H)) (p : ℕ) (id : UInt64) (h : H) : Prop :=
  ∃ pre mid, ops.take p = pre ++ .subscribe h :: mid ∧ idOf pre = id ∧ ∀ op ∈ mid, ¬ op.removes id

/-- What an operation leaves in the table was there, or is new. -/
theorem lookup_of_step {e : EventHandler H} {op : Op H} (hop : (e.step op).1.handlers.lookup id = some h) :
    ¬ op.removes id ∧ e.handlers.lookup id = some h ∨ op = .subscribe h ∧ e.nextId = id := by
  cases op with
  | subscribe h' =>
    have hemplace : (e.handlers.emplace e.nextId h').lookup id = some h := hop
    rw [UnorderedMap.lookup_emplace] at hemplace
    cases hold : e.handlers.lookup id with
    | some h'' =>
      rw [hold, Option.some_or] at hemplace
      exact .inl ⟨not_false, hemplace⟩
    | none =>
      rw [hold, Option.none_or] at hemplace
      split_ifs at hemplace with hid
      cases hemplace
      exact .inr ⟨rfl, hid⟩
  | unsubscribe id' =>
    have herase : (e.handlers.erase id').lookup id = some h := hop
    by_cases hid : id' = id
    · rw [hid, AList.lookup_erase] at herase
      cases herase
    · rw [AList.lookup_erase_ne (Ne.symm hid)] at herase
      exact .inl ⟨hid, herase⟩
  | release | dispose =>
    have hempty : (∅ : UnorderedMap UInt64 H).lookup id = some h := hop
    rw [AList.lookup_empty] at hempty
    cases hempty
  | invoke order => exact .inl ⟨not_false, hop⟩

theorem exists_of_lookup_after (ops : List (Op H)) (hl : (after ops).handlers.lookup id = some h) :
    ∃ pre mid, ops = pre ++ .subscribe h :: mid ∧ idOf pre = id ∧ ∀ op ∈ mid, ¬ op.removes id := by
  induction ops using List.reverseRecOn with
  | nil =>
    have hempty : (∅ : UnorderedMap UInt64 H).lookup id = some h := hl
    rw [AList.lookup_empty] at hempty
    cases hempty
  | append_singleton ops op ih =>
    rw [after_concat] at hl
    rcases lookup_of_step hl with ⟨hop, hold⟩ | ⟨rfl, hid⟩
    · obtain ⟨pre, mid, rfl, hpre, hmid⟩ := ih hold
      refine ⟨pre, mid ++ [op], by simp, hpre, fun op' hop' => ?_⟩
      rcases List.mem_append.mp hop' with hop' | hop'
      · exact hmid op' hop'
      · rw [List.mem_singleton.mp hop']
        exact hop
    · exact ⟨ops, [], rfl, hid, by simp⟩

theorem countP_take_le (ops : List (Op H)) (p : ℕ) :
    (ops.take p).countP Op.isSubscribe ≤ ops.countP Op.isSubscribe :=
  List.Sublist.countP_le (List.take_sublist p ops)

/-- **The table** after the first `p` operations holds what they have registered. -/
theorem lookup_after_iff (hcount : ops.countP Op.isSubscribe < 2 ^ 64) :
    (after (ops.take p)).handlers.lookup id = some h ↔ Registered ops p id h := by
  refine ⟨exists_of_lookup_after _, ?_⟩
  rintro ⟨pre, mid, htake, rfl, hmid⟩
  rw [htake]
  exact lookup_after (since_lt_of_append htake (lt_of_le_of_lt (countP_take_le ops p) hcount)) hmid

/-! ## The copies -/

/-- What the event at the place `p` has copied. -/
def Snapshot (ops : List (Op H)) (p : ℕ) (l : List (Σ _ : UInt64, H)) : Prop :=
  ∃ order, ops[p]? = some (.invoke order) ∧ l = order.entries (after (ops.take p)).handlers

/-- The handlers that an event has called. -/
def callsOf (calls : List (Call H A)) (p : ℕ) : List (Σ _ : UInt64, H) :=
  (calls.filter fun c => c.event = p).map fun c => ⟨c.id, c.handler⟩

variable {l : List (Σ _ : UInt64, H)} {calls : List (Call H A)} {c : Call H A}

theorem Snapshot.lt (hl : Snapshot ops p l) : p < ops.length := by
  obtain ⟨order, hp, -⟩ := hl
  exact (List.getElem?_eq_some_iff.mp hp).1

theorem Snapshot.concat (hl : Snapshot ops p l) (op : Op H) : Snapshot (ops ++ [op]) p l := by
  have hlt := hl.lt
  obtain ⟨order, hp, hl⟩ := hl
  refine ⟨order, ?_, ?_⟩
  · rw [List.getElem?_append_left hlt, hp]
  · rw [List.take_append_of_le_length hlt.le, hl]

theorem Snapshot.mem_iff (hl : Snapshot ops p l) (hcount : ops.countP Op.isSubscribe < 2 ^ 64) :
    ⟨id, h⟩ ∈ l ↔ Registered ops p id h := by
  obtain ⟨order, -, rfl⟩ := hl
  rw [order.mem_entries, lookup_after_iff hcount]

theorem Snapshot.nodupKeys (hl : Snapshot ops p l) : l.NodupKeys := by
  obtain ⟨order, -, rfl⟩ := hl
  exact order.nodupKeys _

theorem callsOf_concat (calls : List (Call H A)) (c : Call H A) (p : ℕ) :
    callsOf (calls ++ [c]) p = callsOf calls p ++ if c.event = p then [⟨c.id, c.handler⟩] else [] := by
  rw [callsOf, List.filter_append, List.map_append, ← callsOf]
  by_cases hc : c.event = p <;> simp [hc]

theorem callsOf_concat_of_ne (hc : c.event ≠ p) : callsOf (calls ++ [c]) p = callsOf calls p := by
  rw [callsOf_concat, if_neg hc, List.append_nil]

theorem mem_callsOf (hc : c ∈ calls) : (⟨c.id, c.handler⟩ : Σ _ : UInt64, H) ∈ callsOf calls c.event :=
  List.mem_map.mpr ⟨c, List.mem_filter.mpr ⟨hc, by simp⟩, rfl⟩

/-- What every step keeps. -/
structure Inv (s : State H A) : Prop where
  table : s.table = after s.ops
  /-- An event is in flight, or has finished, or a handler has thrown. -/
  events : (s.inFlight.map Invocation.event ++ s.finished).Nodup
  begun : (s.begun.map Prod.fst).Nodup ∧ ∀ b ∈ s.begun, b.1 < s.ops.length
  inFlight : ∀ i ∈ s.inFlight, Snapshot s.ops i.event (callsOf s.calls i.event ++ i.waiting) ∧
    (i.event, i.args) ∈ s.begun
  finished : ∀ p ∈ s.finished, Snapshot s.ops p (callsOf s.calls p)
  calls : ∀ c ∈ s.calls, (∃ l, Snapshot s.ops c.event l ∧ callsOf s.calls c.event <+: l) ∧
    (c.event, c.args) ∈ s.begun

theorem inv_init : Inv (.init : State H A) where
  table := rfl
  events := List.nodup_nil
  begun := ⟨List.nodup_nil, by simp [State.init]⟩
  inFlight := by simp [State.init]
  finished := by simp [State.init]
  calls := by simp [State.init]

theorem Inv.operate (hi : Inv s) (op : Op H) : Inv (s.operate op) where
  table := by
    rw [State.operate, after_concat, hi.table]
  events := hi.events
  begun := ⟨hi.begun.1, fun b hb => by
    rw [State.operate, List.length_append]
    exact Nat.lt_add_right _ (hi.begun.2 b hb)⟩
  inFlight i hmem := ⟨(hi.inFlight i hmem).1.concat op, (hi.inFlight i hmem).2⟩
  finished p hp := (hi.finished p hp).concat op
  calls c hc := by
    obtain ⟨⟨l, hl, hpre⟩, hargs⟩ := hi.calls c hc
    exact ⟨⟨l, hl.concat op, hpre⟩, hargs⟩

theorem Inv.callsOf_length (hi : Inv s) : callsOf s.calls s.ops.length = [] := by
  rw [callsOf, List.filter_eq_nil_iff.mpr, List.map_nil]
  intro c hc he
  obtain ⟨⟨l, hl, -⟩, -⟩ := hi.calls c hc
  exact hl.lt.ne (of_decide_eq_true he)

theorem Inv.invoke (hi : Inv s) (order : UnorderedMap.Enumeration UInt64 H) (args : A) :
    Inv (s.invoke order args) := by
  have hop := hi.operate (.invoke order)
  have hfresh : ∀ q ∈ s.inFlight.map Invocation.event ++ s.finished, q ≠ s.ops.length := by
    intro q hq
    rcases List.mem_append.mp hq with hq | hq
    · obtain ⟨i, hmem, rfl⟩ := List.mem_map.mp hq
      exact (hi.inFlight i hmem).1.lt.ne
    · exact (hi.finished q hq).lt.ne
  refine ⟨hop.table, ?_, ⟨?_, ?_⟩, ?_, hop.finished, ?_⟩
  · exact List.nodup_cons.mpr ⟨fun hmem => hfresh _ hmem rfl, hi.events⟩
  · refine List.nodup_cons.mpr ⟨fun hmem => ?_, hi.begun.1⟩
    obtain ⟨b, hb, he⟩ := List.mem_map.mp hmem
    exact (hi.begun.2 b hb).ne he
  · intro b hb
    rcases List.mem_cons.mp hb with rfl | hb
    · simp [State.invoke, State.operate]
    · exact hop.begun.2 b hb
  · intro i hmem
    rcases List.mem_cons.mp hmem with rfl | hmem
    · refine ⟨⟨order, ?_, ?_⟩, List.mem_cons_self⟩
      · simp [State.invoke, State.operate]
      · show callsOf s.calls s.ops.length ++ _ = order.entries (after ((s.ops ++ _).take s.ops.length)).handlers
        rw [hi.callsOf_length, List.take_left, hi.table, List.nil_append]
    · exact ⟨(hop.inFlight i hmem).1, List.mem_cons_of_mem _ (hop.inFlight i hmem).2⟩
  · intro c hc
    exact ⟨(hop.calls c hc).1, List.mem_cons_of_mem _ (hop.calls c hc).2⟩

section InFlight

variable {l₁ l₂ : List (Invocation H A)} {i j : Invocation H A}

theorem Inv.event_ne (hi : Inv s) (hs : s.inFlight = l₁ ++ i :: l₂) (hj : j ∈ l₁ ++ l₂) :
    i.event ≠ j.event := by
  have hnodup := List.Nodup.of_append_left hi.events
  rw [hs, List.map_append, List.map_cons, List.nodup_middle, ← List.map_append, List.nodup_cons] at hnodup
  exact fun he => hnodup.1 (List.mem_map.mpr ⟨j, hj, he.symm⟩)

theorem Inv.event_notMem_finished (hi : Inv s) (hj : i ∈ s.inFlight) : i.event ∉ s.finished := fun hmem =>
  List.disjoint_of_nodup_append hi.events (List.mem_map_of_mem hj) hmem

theorem Inv.call (hi : Inv s) {e : Σ _ : UInt64, H} {rest : List (Σ _ : UInt64, H)}
    (hs : s.inFlight = l₁ ++ i :: l₂) (hw : i.waiting = e :: rest) :
    Inv { s with inFlight := l₁ ++ { i with waiting := rest } :: l₂
                 calls := s.calls ++ [⟨i.event, e.1, e.2, i.args⟩] } := by
  have hmem : i ∈ s.inFlight := by
    rw [hs]
    simp
  obtain ⟨hsnap, hargs⟩ := hi.inFlight i hmem
  -- what the event has called and what it has not make up its copy as before
  have hnow : callsOf (s.calls ++ [⟨i.event, e.1, e.2, i.args⟩]) i.event ++ rest =
      callsOf s.calls i.event ++ i.waiting := by
    rw [callsOf_concat, if_pos rfl, hw, List.append_assoc]
    rfl
  refine ⟨hi.table, ?_, hi.begun, ?_, ?_, ?_⟩
  · have hevents := hi.events
    rw [hs] at hevents
    simpa using hevents
  · intro j hj
    rcases List.mem_cons.mp (List.perm_middle.mem_iff.mp hj) with rfl | hj
    · refine ⟨?_, hargs⟩
      show Snapshot s.ops i.event (_ ++ rest)
      rw [hnow]
      exact hsnap
    · have hne := hi.event_ne hs hj
      have hold : j ∈ s.inFlight := by
        rw [hs]
        exact List.perm_middle.mem_iff.mpr (List.mem_cons_of_mem _ hj)
      show Snapshot s.ops j.event (callsOf _ j.event ++ j.waiting) ∧ _
      rw [callsOf_concat_of_ne hne]
      exact hi.inFlight j hold
  · intro q hq
    show Snapshot s.ops q (callsOf _ q)
    rw [callsOf_concat_of_ne fun he : i.event = q => hi.event_notMem_finished hmem (he ▸ hq)]
    exact hi.finished q hq
  · intro c hc
    rcases List.mem_append.mp hc with hc | hc
    · obtain ⟨⟨l, hl, hpre⟩, hcargs⟩ := hi.calls c hc
      by_cases he : i.event = c.event
      · refine ⟨⟨_, he ▸ hsnap, ?_⟩, hcargs⟩
        rw [← he, ← hnow]
        exact List.prefix_append _ _
      · refine ⟨⟨l, hl, ?_⟩, hcargs⟩
        show callsOf _ c.event <+: l
        rw [callsOf_concat_of_ne he]
        exact hpre
    · rw [List.mem_singleton.mp hc]
      refine ⟨⟨_, hsnap, ?_⟩, hargs⟩
      show callsOf _ i.event <+: _
      rw [← hnow]
      exact List.prefix_append _ _

theorem Inv.throw (hi : Inv s) (hs : s.inFlight = l₁ ++ i :: l₂) : Inv { s with inFlight := l₁ ++ l₂ } := by
  have hsub : (l₁ ++ l₂).Sublist s.inFlight := by
    rw [hs]
    exact List.Sublist.append_left (List.sublist_cons_self i l₂) l₁
  exact ⟨hi.table, hi.events.sublist ((hsub.map _).append_right _), hi.begun,
    fun j hj => hi.inFlight j (hsub.subset hj), hi.finished, hi.calls⟩

theorem Inv.finish (hi : Inv s) (hs : s.inFlight = l₁ ++ i :: l₂) (hw : i.waiting = []) :
    Inv { s with inFlight := l₁ ++ l₂, finished := i.event :: s.finished } := by
  have hthrow := hi.throw hs
  have hmem : i ∈ s.inFlight := by
    rw [hs]
    simp
  refine ⟨hi.table, ?_, hi.begun, hthrow.inFlight, ?_, hi.calls⟩
  · have hevents := hi.events
    rw [hs] at hevents
    refine (List.Perm.nodup_iff ?_).mp hevents
    rw [List.map_append, List.map_append, List.map_cons]
    simp only [List.append_assoc, List.cons_append]
    refine List.Perm.append_left _ ?_
    exact List.perm_middle.symm
  · intro q hq
    rcases List.mem_cons.mp hq with rfl | hq
    · have hsnap := (hi.inFlight i hmem).1
      rw [hw, List.append_nil] at hsnap
      exact hsnap
    · exact hi.finished q hq

end InFlight

theorem Inv.step (hi : Inv s) (hs : Step s s') : Inv s' := by
  cases hs with
  | operate op h => exact hi.operate op
  | invoke order args => exact hi.invoke order args
  | call l₁ l₂ i e rest hs hw => exact hi.call hs hw
  | throw l₁ l₂ i hs => exact hi.throw hs
  | finish l₁ l₂ i hs hw => exact hi.finish hs hw

theorem inv_reaches (h : Reaches .init s) : Inv s := by
  induction h with
  | refl => exact inv_init
  | tail _ hs ih => exact ih.step hs

/-! ## What comes later -/

/-- What a run adds: the later operations, and calls of the events in flight and of later ones. -/
structure Later (s s' : State H A) : Prop where
  ops : s.ops <+: s'.ops
  inFlight : ∀ i ∈ s'.inFlight, i.event ∈ s.inFlight.map Invocation.event ∨ s.ops.length ≤ i.event
  calls : ∃ l, s'.calls = s.calls ++ l ∧
    ∀ c ∈ l, c.event ∈ s.inFlight.map Invocation.event ∨ s.ops.length ≤ c.event

theorem Later.refl (s : State H A) : Later s s where
  ops := List.prefix_rfl
  inFlight i hi := .inl (List.mem_map_of_mem hi)
  calls := ⟨[], by simp, by simp⟩

theorem Later.step {s₁ : State H A} (hl : Later s s₁) (hs : Step s₁ s') : Later s s' := by
  obtain ⟨l, hcalls, hl'⟩ := hl.calls
  cases hs with
  | operate op h => exact ⟨hl.ops.trans (List.prefix_append _ _), hl.inFlight, hl.calls⟩
  | invoke order args =>
    refine ⟨hl.ops.trans (List.prefix_append _ _), fun i hi => ?_, hl.calls⟩
    rcases List.mem_cons.mp hi with rfl | hi
    · exact .inr hl.ops.length_le
    · exact hl.inFlight i hi
  | call l₁ l₂ i e rest hs hw =>
    have hevent := hl.inFlight i (by rw [hs]; simp)
    refine ⟨hl.ops, fun j hj => ?_, l ++ [⟨i.event, e.1, e.2, i.args⟩], ?_, fun c hc => ?_⟩
    · rcases List.mem_cons.mp (List.perm_middle.mem_iff.mp hj) with rfl | hj
      · exact hevent
      · refine hl.inFlight j ?_
        rw [hs]
        exact List.perm_middle.mem_iff.mpr (List.mem_cons_of_mem _ hj)
    · rw [hcalls, List.append_assoc]
    · rcases List.mem_append.mp hc with hc | hc
      · exact hl' c hc
      · rw [List.mem_singleton.mp hc]
        exact hevent
  | throw l₁ l₂ i hs | finish l₁ l₂ i hs hw =>
    refine ⟨hl.ops, fun j hj => hl.inFlight j ?_, hl.calls⟩
    rw [hs]
    exact List.perm_middle.mem_iff.mpr (List.mem_cons_of_mem _ hj)

theorem later_of_reaches (h : Reaches s s') : Later s s' := by
  induction h with
  | refl => exact .refl s
  | tail _ hs ih => exact ih.step hs

/-- **A removed handler** is not registered at a later place, nor is another one under its id, unless
`dispose` comes between. -/
theorem not_registered {pre mid post : List (Op H)} {h' : H} {op : Op H}
    (hops : ops = (pre ++ .subscribe h :: mid) ++ op :: post) (hop : op.removes (idOf pre))
    (hcount : ops.countP Op.isSubscribe < 2 ^ 64) (hdispose : Op.dispose ∉ mid ++ op :: post)
    (hp : (pre ++ .subscribe h :: mid).length < p) : ¬ Registered ops p (idOf pre) h' := by
  rintro ⟨pre', mid', htake, hid, hmid⟩
  have hsplit : ops = pre' ++ .subscribe h' :: (mid' ++ ops.drop p) := by
    rw [← List.cons_append, ← List.append_assoc, ← htake, List.take_append_drop]
  have hnot : op ≠ .subscribe h' := by
    rintro rfl
    exact hop
  rcases List.append_eq_append_iff.mp (hops.symm.trans hsplit) with ⟨l, hpre, hrest⟩ | ⟨l, hpre, hrest⟩
  · -- the later registration is after the removal: another id
    cases l with
    | nil =>
      rw [List.nil_append, List.cons.injEq] at hrest
      exact hnot hrest.1
    | cons op' l =>
      rw [List.cons_append, List.cons.injEq] at hrest
      obtain ⟨rfl, hpost⟩ := hrest
      have hbetween : ops = pre ++ .subscribe h :: ((mid ++ op :: l) ++ .subscribe h' :: (mid' ++ ops.drop p)) := by
        conv_lhs => rw [hops, hpost]
        simp
      refine idOf_ne_of_append hbetween hcount (fun hmem => hdispose ?_) ?_
      · rw [hpost, ← List.cons_append, ← List.append_assoc]
        exact List.mem_append_left _ hmem
      · rw [← hid, hpre]
        simp
  · -- it is before the removal, and would have been removed
    cases l with
    | nil =>
      rw [List.nil_append, List.cons.injEq] at hrest
      exact hnot hrest.1.symm
    | cons op' l =>
      rw [List.cons_append, List.cons.injEq] at hrest
      obtain ⟨rfl, hrest⟩ := hrest
      have hlong : l.length < mid'.length := by
        have hlen := congrArg List.length htake
        have hlen' := congrArg List.length hpre
        have hlen'' := congrArg List.length hops
        simp only [List.length_take, List.length_append, List.length_cons] at hlen hlen' hlen'' hp
        omega
      have hmem : op ∈ mid' := by
        have hget := congrArg (fun ops : List (Op H) => ops[l.length]?) hrest
        simp only [List.getElem?_append_left hlong, List.getElem?_append_right le_rfl, Nat.sub_self,
          List.getElem?_cons_zero] at hget
        exact List.mem_of_getElem? hget
      exact hmid op hmem hop

/-! ## Deliveries -/

/-- What the events deliver. -/
structure Delivers (s : State H A) : Prop where
  /-- An event calls handlers that were registered when it had the mutex, with its own arguments, -/
  sound : ∀ c ∈ s.calls, Registered s.ops c.event c.id c.handler ∧
    ∀ args, (c.event, args) ∈ s.begun ↔ args = c.args
  /-- no handler twice, -/
  once : (s.calls.map fun c => (c.event, c.id)).Nodup
  /-- and all of them, when `invoke` returns. -/
  complete : ∀ p ∈ s.finished, ∀ id h, Registered s.ops p id h →
    ∃ c ∈ s.calls, c.event = p ∧ c.id = id ∧ c.handler = h
  /-- When a handler has been removed, and no event is in flight that had the mutex before, then no event
  calls it any more, nor another one under its id. -/
  quiet : ∀ pre h mid op post, s.ops = (pre ++ .subscribe h :: mid) ++ op :: post → op.removes (idOf pre) →
    (∀ i ∈ s.inFlight, (pre ++ .subscribe h :: mid).length < i.event) →
    ∀ s', Reaches s s' → s'.ops.countP Op.isSubscribe < 2 ^ 64 →
      Op.dispose ∉ s'.ops.drop (pre.length + 1) →
      ∀ c ∈ s'.calls.drop s.calls.length, c.id ≠ idOf pre

theorem Inv.sound (hi : Inv s) (hcount : s.ops.countP Op.isSubscribe < 2 ^ 64) {c : Call H A}
    (hc : c ∈ s.calls) : Registered s.ops c.event c.id c.handler ∧
      ∀ args, (c.event, args) ∈ s.begun ↔ args = c.args := by
  obtain ⟨⟨l, hl, hpre⟩, hargs⟩ := hi.calls c hc
  refine ⟨(hl.mem_iff hcount).mp (hpre.subset (mem_callsOf hc)), fun args => ⟨fun hmem => ?_, ?_⟩⟩
  · exact congrArg Prod.snd (List.inj_on_of_nodup_map hi.begun.1 hmem hargs rfl)
  · rintro rfl
    exact hargs

theorem Inv.once (hi : Inv s) : (s.calls.map fun c => (c.event, c.id)).Nodup := by
  refine List.pairwise_map.mpr (List.pairwise_iff_forall_sublist.mpr fun hsub he => ?_)
  rename_i c c'
  rw [Prod.mk.injEq] at he
  obtain ⟨⟨l, hl, hpre⟩, -⟩ := hi.calls c (hsub.subset List.mem_cons_self)
  have hpair : List.Sublist [⟨c.id, c.handler⟩, ⟨c'.id, c'.handler⟩] (callsOf s.calls c.event) := by
    have hfilter := (hsub.filter fun d => d.event = c.event).map fun d : Call H A =>
      (⟨d.id, d.handler⟩ : Σ _ : UInt64, H)
    simpa [callsOf, he.1] using hfilter
  have hkeys := hl.nodupKeys.sublist (hpair.trans hpre.sublist)
  simp [List.nodupKeys_cons, he.2] at hkeys

theorem Inv.complete (hi : Inv s) (hcount : s.ops.countP Op.isSubscribe < 2 ^ 64) (hp : p ∈ s.finished)
    (hr : Registered s.ops p id h) : ∃ c ∈ s.calls, c.event = p ∧ c.id = id ∧ c.handler = h := by
  have hmem := ((hi.finished p hp).mem_iff hcount).mpr hr
  obtain ⟨c, hc, he⟩ := List.mem_map.mp hmem
  rw [List.mem_filter] at hc
  cases he
  exact ⟨c, hc.1, of_decide_eq_true hc.2, rfl, rfl⟩

theorem Inv.quiet (hi : Inv s') (hl : Later s s') {pre mid post : List (Op H)} {op : Op H}
    (hops : s.ops = (pre ++ .subscribe h :: mid) ++ op :: post) (hop : op.removes (idOf pre))
    (hflight : ∀ i ∈ s.inFlight, (pre ++ .subscribe h :: mid).length < i.event)
    (hcount : s'.ops.countP Op.isSubscribe < 2 ^ 64) (hdispose : Op.dispose ∉ s'.ops.drop (pre.length + 1))
    {c : Call H A} (hc : c ∈ s'.calls.drop s.calls.length) : c.id ≠ idOf pre := by
  obtain ⟨more, hmore⟩ := hl.ops
  obtain ⟨l, hcalls, hlate⟩ := hl.calls
  have hops' : s'.ops = (pre ++ .subscribe h :: mid) ++ op :: (post ++ more) := by
    rw [← hmore, hops, List.append_assoc, List.cons_append]
  have hdispose' : Op.dispose ∉ mid ++ op :: (post ++ more) := by
    intro hmem
    refine hdispose ?_
    rw [hops', List.append_assoc, List.cons_append, List.append_cons, List.drop_left' (by simp)]
    exact hmem
  have hevent : (pre ++ .subscribe h :: mid).length < c.event := by
    rw [hcalls, List.drop_left] at hc
    rcases hlate c hc with hold | hnew
    · obtain ⟨i, hi, he⟩ := List.mem_map.mp hold
      rw [← he]
      exact hflight i hi
    · refine lt_of_lt_of_le ?_ hnew
      simp only [hops, List.length_append, List.length_cons]
      omega
  intro hid
  have hr := (hi.sound hcount (List.mem_of_mem_drop hc)).1
  rw [hid] at hr
  exact not_registered hops' hop hcount hdispose' hevent hr

/-- **Deliveries**, in any interleaving. Every handler that an event calls was registered when the event
had the mutex; the event calls none twice, and all of them when no handler throws. Once a handler has
been removed and the events from before are over, it is not called any more. -/
theorem delivers (hs : Reaches .init s) (hcount : s.ops.countP Op.isSubscribe < 2 ^ 64) : Delivers s where
  sound _ hc := (inv_reaches hs).sound hcount hc
  once := (inv_reaches hs).once
  complete _ hp _ _ hr := (inv_reaches hs).complete hcount hp hr
  quiet _ _ _ _ _ hops hop hflight _ hs' hcount' hdispose _ hc :=
    (inv_reaches (hs.trans hs')).quiet (later_of_reaches hs') hops hop hflight hcount' hdispose hc

/-- A handler that is called after it has been removed: its event had copied it. -/
def State.late : State Bool Unit :=
  { table := after [.subscribe true, .unsubscribe 1]
    ops := [.subscribe true, .invoke (UnorderedMap.visitLast Bool 1), .unsubscribe 1]
    inFlight := []
    calls := [⟨1, 1, true, ()⟩]
    finished := [1]
    begun := [(1, ())] }

theorem reaches_late : Reaches .init State.late := by
  have h₁ : Reaches (.init : State Bool Unit) _ := .single (.operate (.subscribe true) (by simp))
  have h₂ := h₁.tail (.invoke (UnorderedMap.visitLast Bool 1) ())
  have h₃ := h₂.tail (.operate (.unsubscribe 1) (by simp))
  have h₄ := h₃.tail (.call [] [] _ ⟨1, true⟩ [] rfl rfl)
  have h₅ := h₄.tail (.finish [] [] _ rfl rfl)
  exact h₅

/-- `delivers` for it. -/
theorem delivers_late : Reaches .init State.late ∧ State.late.ops.countP Op.isSubscribe < 2 ^ 64 ∧
    Delivers State.late :=
  ⟨reaches_late, by decide, delivers reaches_late (by decide)⟩

end TPC.System.Deliveries
